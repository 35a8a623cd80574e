import ServiceCatalog.Config.File
import ServiceCatalog.Proofs.Config.Text

namespace ServiceCatalog

namespace Files

/-- A path at which a text can be put: no directory is there, and the one around it is. -/
def Writable (f : Files) (p : Path) : Prop :=
  ∃ l, f.locate? p = some l ∧ f.barred f.attempts l = none ∧ f.node? l ≠ some .directory ∧
    (f.node? l = none → f.node? l.dropLast = some .directory)

theorem writeAt_isOk_iff {f : Files} {l : Location} {s : String} :
    (f.writeAt l s).2 = .ok () ↔ f.barred f.attempts l = none ∧ f.node? l ≠ some .directory ∧
      (f.node? l = none → f.node? l.dropLast = some .directory) := by
  simp only [writeAt, attempt]
  cases hbarred : f.barred f.attempts l with
  | some fault => simp
  | none =>
    cases hnode : f.node? l with
    | some node => cases node <;> simp
    | none =>
      have hparent : Files.node? { f with attempts := f.attempts + 1 } l.dropLast = f.node? l.dropLast := rfl
      simp only [hparent]
      split
      · next heq => simp [heq]
      · next hne => simpa using hne

theorem write_isOk_iff {f : Files} {p : Path} {s : String} : (f.write p s).2 = .ok () ↔ f.Writable p := by
  simp only [write, Writable]
  cases hl : f.locate? p with
  | none => simp
  | some l => simp [writeAt_isOk_iff]

end Files

namespace Config

variable {codec : Toml.Codec} {c : Config} {files : Files} {file : Path}

theorem save_isOk_iff {s : String} (hs : c.text? codec = some s) :
    (c.save codec files file).2 = .ok () ↔
      (makeParent files file).2 = .ok () ∧ (makeParent files file).1.Writable file := by
  rw [← Files.write_isOk_iff (s := s), save, hs]
  rcases hmade : makeParent files file with ⟨made, fault | _⟩
  · simp
  · rcases hwrite : made.write file s with ⟨written, fault | _⟩ <;> simp [hwrite]

theorem text?_of_save {s : String} (hs : c.text? codec = some s) (h : (c.save codec files file).2 = .ok ()) :
    (c.save codec files file).1.text? file = some s := by
  rw [save, hs] at h ⊢
  rcases hmade : makeParent files file with ⟨made, fault | _⟩
  · simp [hmade] at h
  · rcases hwrite : made.write file s with ⟨written, fault | _⟩
    · simp [hmade, hwrite] at h
    · simpa [hwrite] using (Files.write_ok hwrite).2

theorem load_of_text? {s : String} (hs : files.text? file = some s) (hread : read codec s = .ok c) :
    load codec files file = .ok c := by
  simp [load, Files.find?_of_text? hs, Files.read_of_text? hs, hread]

theorem makeParent_root (files : Files) : makeParent files (.ofText "/c.toml") = (files, .ok ()) := by
  have hparent : (Path.ofText "/c.toml").parent? = some (.ofText "/") := by decide +kernel
  have hroot : files.locate? (.ofText "/") = some [] := rfl
  simp [makeParent, hparent, Files.makeDirectories, hroot, Location.steps, Files.makeEach]

/-- A configuration that passes its check has a text if its path has one, and the text is read as that configuration.
Saving it succeeds wherever a file can be written, and loading then gives it back, with all that it comes to in an
environment. Without a text nothing is written. -/
theorem round_trip (hcodec : codec.Faithful) (hcheck : c.check = .ok ()) :
    ((c.text? codec).isSome ↔ ∀ p ∈ c.storePath, p.text?.isSome) ∧
      (∀ s, c.text? codec = some s → read codec s = .ok c ∧ ∀ files file,
        ((c.save codec files file).2 = .ok () ↔
            (makeParent files file).2 = .ok () ∧ (makeParent files file).1.Writable file) ∧
          ((c.save codec files file).2 = .ok () → load codec (c.save codec files file).1 file = .ok c)) ∧
      (c.text? codec = none → ∀ files file, c.save codec files file = (files, .error .noText)) := by
  refine ⟨text?_isSome_iff hcodec hcheck, fun s hs => ?_, fun hnone files file => by rw [save, hnone]⟩
  have hread := read_of_text? hcodec hcheck hs
  exact ⟨hread, fun files file => ⟨save_isOk_iff hs, fun hsaved => load_of_text? (text?_of_save hs hsaved) hread⟩⟩

theorem round_trip_awkward :
    let c : Config := ⟨some (.ofText "C:\\data\n\"new\"\\"), some "O'Brien '''\r\n\x01\x7f\"\"\"", .reject, 1000⟩
    let file : Path := .ofText "/c.toml"
    let files : Files := (Files.empty []).put (.of ["c.toml"]) (.text "user = [")
    ∃ s, c.text? Toml.codec = some s ∧ read Toml.codec s = .ok c ∧ (c.save Toml.codec files file).2 = .ok () ∧
      load Toml.codec (c.save Toml.codec files file).1 file = .ok c := by
  intro c file files
  obtain ⟨hsome, htext, -⟩ := round_trip (c := c) Toml.faithful_codec rfl
  obtain ⟨s, hs⟩ := Option.isSome_iff_exists.1 (hsome.2 (by decide))
  obtain ⟨hread, hfile⟩ := htext s hs
  have hwritable : files.Writable file := ⟨.of ["c.toml"], by decide +kernel, rfl, by decide +kernel, by decide +kernel⟩
  have hsaved := (hfile files file).1.2 (by rw [makeParent_root]; exact ⟨rfl, hwritable⟩)
  exact ⟨s, hs, hread, hsaved, (hfile files file).2 hsaved⟩

/-- However documents are written, a path that is not Unicode has no text, and no file takes the place of a
directory. -/
theorem unsaved :
    let c : Config := { default with storePath := some ⟨[.char '/', .stray [0xff]]⟩ }
    let file : Path := .ofText "/c.toml"
    let files : Files := (Files.empty []).put (.of ["c.toml"]) .directory
    c.check = .ok () ∧ (∀ codec, c.text? codec = none) ∧
      Config.check default = .ok () ∧ ∀ codec, (save codec default files file).2 ≠ .ok () := by
  intro c file files
  refine ⟨rfl, fun codec => rfl, rfl, fun codec hsaved => ?_⟩
  cases htext : text? codec default with
  | none => simp [save, htext] at hsaved
  | some s =>
    obtain ⟨-, l, hl, -, hfree, -⟩ := (save_isOk_iff htext).1 hsaved
    rw [makeParent_root] at hl hfree
    obtain rfl : Location.of ["c.toml"] = l := Option.some.inj (.trans (by decide +kernel) hl)
    exact hfree (by decide +kernel)

end Config

end ServiceCatalog
