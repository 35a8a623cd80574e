import ServiceCatalog.Config.Text
import ServiceCatalog.Proofs.Text.Excerpt
import ServiceCatalog.Toml.Codec

namespace ServiceCatalog

namespace Config

open Excerpt

theorem illegible_of_read {codec : Toml.Codec} {s m : String} {cs : List Char} {place : Nat}
    (h : read codec s = .error (.illegible cs (some place) m)) : cs = s.toList ∧ place ≤ s.toList.length := by
  rw [read, readUnchecked] at h
  split at h
  · next c _ =>
    simp only [bind, Except.bind] at h
    split at h <;> cases h
  · next fault _ =>
    obtain ⟨rfl, hplace, rfl⟩ := TextFault.illegible.inj (Except.error.inj h)
    obtain ⟨left, -, rfl⟩ := Option.map_eq_some_iff.1 hplace
    exact ⟨rfl, Nat.sub_le ..⟩

/-- The line of a place, which is one more than the newlines before it, is shown with its neighbours and alone marked,
unless nothing stands in it and it ends the text. What the reader says of the fault follows. -/
theorem message_points (s : String) (place : Nat) :
    let cs := s.toList
    let n := (cs.take place).count '\n' + 1
    (∀ codec text fault m, read codec s = .error (.illegible text (some fault) m) →
        text = cs ∧ fault ≤ cs.length) ∧
      (∀ m, (TextFault.illegible cs (some place) m).message =
        "TOML parsing error at line " ++ natText n ++ ":\n" ++ String.ofList (['\n'].intercalate (rows cs n)) ++
          "\n\nError: " ++ m) ∧
      rows cs n = (numbers cs n).map (fun k => Excerpt.row n k (lineOf cs k)) ∧
      (∀ k, k ∈ numbers cs n ↔ 1 ≤ k ∧ n ≤ k + 1 ∧ k ≤ n + 1 ∧ k ≤ lineCount cs) ∧
      (rows cs n).length ≤ 3 ∧
      (rows cs n = [] ↔ cs = []) ∧
      n - 2 ≤ min (n + 1) (lines cs).length ∧
      (rows cs n).filter isMarked =
        if cs.length ≤ place ∧ LineStart cs then [] else [Excerpt.row n n (lineOf cs n)] := by
  intro cs n
  have hn : n = lineNumber cs place := rfl
  refine ⟨fun _ _ _ _ => illegible_of_read, fun _ => rfl, rows_eq cs n, fun _ => mem_numbers, length_rows_le cs n,
    rows_eq_nil_iff, ?_, ?_⟩
  · have hle := lineNumber_le_succ cs place
    rw [length_lines]
    omega
  · have hshown : n ∈ numbers cs n ↔ ¬ (cs.length ≤ place ∧ LineStart cs) := by
      rw [mem_numbers, hn, ← lineNumber_le_iff]
      exact ⟨fun h => h.2.2.2, fun h => ⟨Nat.le_add_left .., Nat.le_succ _, Nat.le_succ _, h⟩⟩
    rw [filter_isMarked_rows]
    simp only [hshown, ite_not]

/-- The fault of a text that is not closed lies behind the last line end, and no line is marked. -/
theorem unclosed_text_unmarked :
    let cs := "user = \"\"\"abc\n".toList
    read Toml.codec "user = \"\"\"abc\n" = .error (.illegible cs (some cs.length) "") ∧ lineNumber cs cs.length = 2 ∧
      (TextFault.illegible cs (some cs.length) "").message =
        "TOML parsing error at line 2:\n       1 | user = \"\"\"abc\n\nError: " ∧
      (rows cs 2).filter isMarked = [] := by
  refine ⟨rfl, ?_⟩
  decide +kernel

end Config

end ServiceCatalog
