import Mathlib.Data.List.Nodup
import Mathlib.Data.List.Range
import ServiceCatalog.Text.Basic

namespace ServiceCatalog

def lineOf (cs : List Char) (n : Nat) : List Char :=
  let l := (cs.splitOn '\n').getD (n - 1) []
  if n ≤ cs.count '\n' ∧ l.getLast? = some '\r' then l.dropLast else l

def LineStart (cs : List Char) : Prop := cs = [] ∨ cs.getLast? = some '\n'

instance (cs : List Char) : Decidable (LineStart cs) := inferInstanceAs (Decidable (_ ∨ _))

def lineCount (cs : List Char) : Nat := cs.count '\n' + if LineStart cs then 0 else 1

theorem splitOn_newline (cs : List Char) : ('\n' :: cs).splitOn '\n' = [] :: cs.splitOn '\n' := by
  rw [List.splitOn, List.splitOnP_cons_eq_if_modifyHead]
  rfl

theorem splitOn_char {c : Char} (hc : c ≠ '\n') (cs : List Char) :
    (c :: cs).splitOn '\n' = (cs.splitOn '\n').modifyHead (c :: ·) := by
  rw [List.splitOn, List.splitOnP_cons_eq_if_modifyHead, if_neg (by simpa using hc)]
  rfl

theorem lineOf_newline_one (cs : List Char) : lineOf ('\n' :: cs) 1 = [] := by
  simp [lineOf, splitOn_newline]

theorem lineOf_newline (cs : List Char) (n : Nat) : lineOf ('\n' :: cs) (n + 2) = lineOf cs (n + 1) := by
  simp [lineOf, splitOn_newline]

theorem lineOf_char {c : Char} (hc : c ≠ '\n') (cs : List Char) (n : Nat) :
    lineOf (c :: cs) (n + 2) = lineOf cs (n + 2) := by
  obtain ⟨p, ps, hp⟩ := List.exists_cons_of_ne_nil (List.splitOn_ne_nil '\n' cs)
  simp [lineOf, splitOn_char hc, hp, hc]

theorem lineOf_return_one (cs : List Char) : lineOf ('\r' :: '\n' :: cs) 1 = [] := by
  simp [lineOf, splitOn_char, splitOn_newline]

theorem lineOf_one {cs p : List Char} {ps : List (List Char)} (h : cs.splitOn '\n' = p :: ps) :
    lineOf cs 1 = if 1 ≤ cs.count '\n' ∧ p.getLast? = some '\r' then p.dropLast else p := by
  simp [lineOf, h]

theorem lineOf_char_one {c : Char} {cs : List Char} (hc : c ≠ '\n') (hreturn : c = '\r' → cs.head? ≠ some '\n') :
    lineOf (c :: cs) 1 = c :: lineOf cs 1 := by
  cases cs with
  | nil => simp [lineOf, splitOn_char hc, hc]
  | cons d cs =>
    by_cases hd : d = '\n'
    · have hne : c ≠ '\r' := fun h => hreturn h (congrArg some hd)
      simp [lineOf, hd, splitOn_char hc, splitOn_newline, hne]
    · obtain ⟨p, ps, hp⟩ := List.exists_cons_of_ne_nil (List.splitOn_ne_nil '\n' cs)
      have hfirst : (d :: cs).splitOn '\n' = (d :: p) :: ps := by rw [splitOn_char hd, hp, List.modifyHead_cons]
      have hsecond : (c :: d :: cs).splitOn '\n' = (c :: d :: p) :: ps := by
        rw [splitOn_char hc, hfirst, List.modifyHead_cons]
      rw [lineOf_one hfirst, lineOf_one hsecond, List.count_cons_of_ne hc, List.getLast?_cons_cons,
        List.dropLast_cons_cons]
      split <;> rfl

theorem lines_eq_nil {cs : List Char} : lines cs = [] ↔ cs = [] := by
  fun_cases lines cs <;> simp [*]

theorem lineStart_cons {c : Char} {cs : List Char} (h : cs ≠ []) : LineStart (c :: cs) ↔ LineStart cs := by
  obtain ⟨d, ds, rfl⟩ := List.exists_cons_of_ne_nil h
  simp [LineStart, List.getLast?_cons_cons]

theorem lineStart_newline (cs : List Char) : LineStart ('\n' :: cs) ↔ LineStart cs := by
  cases cs with
  | nil => decide
  | cons d cs => exact lineStart_cons (List.cons_ne_nil d cs)

theorem lineCount_newline (cs : List Char) : lineCount ('\n' :: cs) = lineCount cs + 1 := by
  simp only [lineCount, lineStart_newline, List.count_cons_self]
  omega

theorem lineCount_char {c : Char} {cs : List Char} (hc : c ≠ '\n') (h : cs ≠ []) :
    lineCount (c :: cs) = lineCount cs := by
  simp only [lineCount, lineStart_cons h, List.count_cons_of_ne hc]

theorem length_lines (cs : List Char) : (lines cs).length = lineCount cs := by
  fun_induction lines cs with
  | case1 => rfl
  | case2 r ih => rw [List.length_cons, ih, lineCount_newline]
  | case3 r ih => rw [List.length_cons, ih, lineCount_char (by decide) (List.cons_ne_nil _ r), lineCount_newline]
  | case4 c r hc hreturn hnil ih =>
    obtain rfl := lines_eq_nil.1 hnil
    have hne : c ≠ '\n' := hc
    simp [lineCount, LineStart, hne]
  | case5 c r hc hreturn l ls hlines ih =>
    have hr : r ≠ [] := fun h => by simp [lines_eq_nil.2 h] at hlines
    rw [lineCount_char hc hr, ← ih, hlines]
    rfl

theorem lineCount_append (front : List Char) {back : List Char} (h : back ≠ []) :
    lineCount (front ++ back) = front.count '\n' + lineCount back := by
  have hstart : LineStart (front ++ back) ↔ LineStart back := by
    simp [LineStart, h]
  rw [lineCount, lineCount, List.count_append, Nat.add_assoc]
  simp only [hstart]

theorem lineCount_pos {cs : List Char} (h : cs ≠ []) : 0 < lineCount cs := by
  rw [← length_lines]
  exact List.length_pos_iff.2 fun hnil => h (lines_eq_nil.1 hnil)

theorem getElem?_lines {cs : List Char} {i : Nat} (h : i < (lines cs).length) :
    (lines cs)[i]? = some (lineOf cs (i + 1)) := by
  fun_induction lines cs generalizing i with
  | case1 => cases h
  | case2 r ih =>
    cases i with
    | zero => rw [lineOf_newline_one, List.getElem?_cons_zero]
    | succ i => rw [lineOf_newline, List.getElem?_cons_succ, ih (Nat.lt_of_succ_lt_succ h)]
  | case3 r ih =>
    cases i with
    | zero => rw [lineOf_return_one, List.getElem?_cons_zero]
    | succ i =>
      rw [lineOf_char (by decide), lineOf_newline, List.getElem?_cons_succ, ih (Nat.lt_of_succ_lt_succ h)]
  | case4 c r hc hreturn hnil ih =>
    obtain rfl := lines_eq_nil.1 hnil
    obtain rfl : i = 0 := Nat.lt_one_iff.1 h
    have hend : c = '\r' → ([] : List Char).head? ≠ some '\n' := fun _ => by simp
    rw [lineOf_char_one hc hend]
    rfl
  | case5 c r hc hreturn l ls hlines ih =>
    rw [hlines] at ih
    cases i with
    | zero =>
      have hend : c = '\r' → r.head? ≠ some '\n' := by
        intro he hhead
        obtain ⟨r', rfl⟩ := List.head?_eq_some_iff.1 hhead
        exact hreturn r' he rfl
      have hfirst : l = lineOf r 1 := Option.some.inj (ih (i := 0) (Nat.zero_lt_succ _))
      rw [lineOf_char_one hc hend, ← hfirst, List.getElem?_cons_zero]
    | succ i =>
      rw [lineOf_char hc]
      exact ih (i := i + 1) h

namespace Excerpt

def isMarked (r : List Char) : Bool := ['>', '>', '>'].isPrefixOf r

theorem isMarked_row (sought number : Nat) (line : List Char) :
    isMarked (row sought number line) = decide (number = sought) := by
  unfold row
  by_cases h : number = sought
  · rw [if_pos h, decide_eq_true h]
    rfl
  · rw [if_neg h, decide_eq_false h]
    rfl

def numbers (cs : List Char) (sought : Nat) : List Nat :=
  List.range' (sought - 2 + 1) (min (sought + 1) (lineCount cs) - (sought - 2))

theorem mem_numbers {cs : List Char} {sought n : Nat} :
    n ∈ numbers cs sought ↔ 1 ≤ n ∧ sought ≤ n + 1 ∧ n ≤ sought + 1 ∧ n ≤ lineCount cs := by
  rw [numbers, List.mem_range'_1]
  omega

theorem rows_eq (cs : List Char) (sought : Nat) :
    rows cs sought = (numbers cs sought).map fun n => row sought n (lineOf cs n) := by
  apply List.ext_getElem?
  intro i
  simp only [rows, numbers, List.getElem?_map, List.getElem?_zipIdx, List.getElem?_drop, List.getElem?_take,
    length_lines]
  by_cases hi : sought - 2 + i < min (sought + 1) (lineCount cs)
  · have hline : sought - 2 + i < (lines cs).length := by
      rw [length_lines]
      omega
    have hnumber : sought - 2 + i + 1 = sought - 2 + 1 + i := by omega
    have hshown : i < min (sought + 1) (lineCount cs) - (sought - 2) := by omega
    rw [if_pos hi, List.getElem?_range' hshown, getElem?_lines hline, hnumber, Nat.one_mul]
    rfl
  · have hhidden : min (sought + 1) (lineCount cs) - (sought - 2) ≤ i := by omega
    rw [if_neg hi, List.getElem?_eq_none (by rwa [List.length_range'])]
    rfl

theorem lineNumber_le_iff {cs : List Char} {place : Nat} :
    lineNumber cs place ≤ lineCount cs ↔ ¬ (cs.length ≤ place ∧ LineStart cs) := by
  rw [lineNumber]
  by_cases hend : cs.length ≤ place
  · rw [List.take_of_length_le hend, lineCount]
    split <;> simp_all
  · have hrest : cs.drop place ≠ [] := fun h => hend (List.drop_eq_nil_iff.1 h)
    have hcount := lineCount_append (cs.take place) hrest
    have hpos := lineCount_pos hrest
    rw [List.take_append_drop] at hcount
    simp only [hend, false_and, not_false_eq_true, iff_true]
    omega

theorem lineNumber_le_succ (cs : List Char) (place : Nat) : lineNumber cs place ≤ lineCount cs + 1 := by
  have hcount : (cs.take place).count '\n' ≤ cs.count '\n' := (List.take_sublist place cs).count_le '\n'
  rw [lineNumber, lineCount]
  omega

theorem rows_eq_nil_iff {cs : List Char} {place : Nat} : rows cs (lineNumber cs place) = [] ↔ cs = [] := by
  have hle := lineNumber_le_succ cs place
  rw [rows_eq, List.map_eq_nil_iff, numbers, List.range'_eq_nil_iff, ← lines_eq_nil, ← List.length_eq_zero_iff,
    length_lines]
  omega

theorem length_rows_le (cs : List Char) (sought : Nat) : (rows cs sought).length ≤ 3 := by
  rw [rows_eq, List.length_map, numbers, List.length_range']
  omega

theorem filter_isMarked_rows (cs : List Char) (sought : Nat) :
    (rows cs sought).filter isMarked =
      if sought ∈ numbers cs sought then [row sought sought (lineOf cs sought)] else [] := by
  have hnodup : (numbers cs sought).Nodup := List.nodup_range'
  have hmarked : (isMarked ∘ fun n => row sought n (lineOf cs n)) = (· == sought) := by
    funext n
    exact isMarked_row sought n (lineOf cs n)
  rw [rows_eq, List.filter_map, hmarked, List.filter_beq, hnodup.count]
  split <;> rfl

end Excerpt

end ServiceCatalog
