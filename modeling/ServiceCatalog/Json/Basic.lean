import ServiceCatalog.Decimal.Binary64
import ServiceCatalog.Json.Dict

/-!
JSON trees as they are read and written, and the values that are kept verbatim. A value is a tree in
canonical form: every part is legible and the keys of every object ascend.
-/

namespace ServiceCatalog

inductive Json where
  | null
  | bool (b : Bool)
  | int (n : Int)
  | float (x : Binary64)
  | str (s : String)
  | arr (items : List Json)
  | obj (fields : List (String × Json))
  /-- A part that follows the grammar but stands for no value: a number out of range, an unpaired
  surrogate, nesting that is too deep. It may be skipped, never read. -/
  | illegible
deriving Inhabited

namespace Json

mutual

def legible : Json → Bool
  | .arr items => legibleAll items
  | .obj fields => legibleFields fields
  | .illegible => false
  | _ => true

def legibleAll : List Json → Bool
  | [] => true
  | j :: r => j.legible && legibleAll r

def legibleFields : List (String × Json) → Bool
  | [] => true
  | (_, j) :: r => j.legible && legibleFields r

end

mutual

def normalize : Json → Json
  | .arr items => .arr (normalizeAll items)
  | .obj fields => .obj (Dict.ofList (normalizeFields fields)).entries
  | .illegible => .null
  | .null => .null
  | .bool b => .bool b
  | .int n => .int n
  | .float x => .float x
  | .str s => .str s

def normalizeAll : List Json → List Json
  | [] => []
  | j :: r => j.normalize :: normalizeAll r

def normalizeFields : List (String × Json) → List (String × Json)
  | [] => []
  | (k, j) :: r => (k, j.normalize) :: normalizeFields r

end

mutual

def Canonical : Json → Prop
  | .arr items => CanonicalAll items
  | .obj fields => Ascending fields ∧ CanonicalFields fields
  | .illegible => False
  | _ => True

def CanonicalAll : List Json → Prop
  | [] => True
  | j :: r => j.Canonical ∧ CanonicalAll r

def CanonicalFields : List (String × Json) → Prop
  | [] => True
  | (_, j) :: r => j.Canonical ∧ CanonicalFields r

end

theorem canonicalFields_iff {l : List (String × Json)} :
    CanonicalFields l ↔ ∀ p ∈ l, p.2.Canonical := by
  induction l with
  | nil => simp [CanonicalFields]
  | cons p r ih => obtain ⟨k, j⟩ := p; simp [CanonicalFields, ih]

mutual

theorem normalize_canonical : ∀ j : Json, j.normalize.Canonical
  | .arr items => by simpa [normalize, Canonical] using normalizeAll_canonical items
  | .obj fields => by
    simp only [normalize, Canonical]
    refine ⟨Dict.ascending _, canonicalFields_iff.2 fun p hp => ?_⟩
    exact canonicalFields_iff.1 (normalizeFields_canonical fields) p (Dict.mem_ofList hp)
  | .illegible => by simp [normalize, Canonical]
  | .null => by simp [normalize, Canonical]
  | .bool _ => by simp [normalize, Canonical]
  | .int _ => by simp [normalize, Canonical]
  | .float _ => by simp [normalize, Canonical]
  | .str _ => by simp [normalize, Canonical]

theorem normalizeAll_canonical : ∀ l : List Json, CanonicalAll (normalizeAll l)
  | [] => by simp [normalizeAll, CanonicalAll]
  | j :: r => by
    simpa [normalizeAll, CanonicalAll] using ⟨normalize_canonical j, normalizeAll_canonical r⟩

theorem normalizeFields_canonical : ∀ l : List (String × Json), CanonicalFields (normalizeFields l)
  | [] => by simp [normalizeFields, CanonicalFields]
  | (k, j) :: r => by
    simpa [normalizeFields, CanonicalFields] using
      ⟨normalize_canonical j, normalizeFields_canonical r⟩

end

mutual

def same : Json → Json → Bool
  | .null, .null => true
  | .bool a, .bool b => a == b
  | .int a, .int b => a == b
  | .float a, .float b => a == b
  | .str a, .str b => a == b
  | .arr a, .arr b => sameAll a b
  | .obj a, .obj b => sameFields a b
  | _, _ => false

def sameAll : List Json → List Json → Bool
  | [], [] => true
  | a :: r, b :: s => a.same b && sameAll r s
  | _, _ => false

def sameFields : List (String × Json) → List (String × Json) → Bool
  | [], [] => true
  | (j, a) :: r, (k, b) :: s => j == k && a.same b && sameFields r s
  | _, _ => false

end

def field? : Json → String → Option Json
  | .obj fields, k => (fields.find? (·.1 == k)).map (·.2)
  | _, _ => none

def str? : Json → Option String
  | .str s => some s
  | _ => none

def record (fields : List (String × Option Json)) : Json :=
  .obj (fields.filterMap fun (k, v) => v.map (k, ·))

end Json

structure Value where
  tree : Json
  canonical : tree.Canonical

namespace Value

def ofTree (j : Json) : Value := ⟨j.normalize, j.normalize_canonical⟩

def null : Value := ofTree .null

instance : Inhabited Value := ⟨null⟩

instance : BEq Value := ⟨fun v w => v.tree.same w.tree⟩

theorem ext {v w : Value} (h : v.tree = w.tree) : v = w := by
  cases v; cases w; cases h; rfl

end Value

end ServiceCatalog
