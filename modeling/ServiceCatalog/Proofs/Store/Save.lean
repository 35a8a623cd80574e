import ServiceCatalog.Proofs.Files.Content
import ServiceCatalog.Proofs.Store.Records
import ServiceCatalog.Store.Basic

namespace ServiceCatalog

namespace Store

theorem save_error {files after : Files} {file : Path} {r : Records} {fault : StorageFault}
    (h : save files file r = (after, .error fault)) : after.text? file = files.text? file := by
  simp only [save] at h
  split at h
  · next hmake =>
    cases h
    have hmade := Files.sameContent_of_makeDirectories hmake
    exact Files.text?_congr hmade.workDirectory fun l _ => hmade.content l
  · next made hmake =>
    have hmade := Files.sameContent_of_makeDirectories hmake
    split at h
    · next hdraft =>
      cases h
      obtain rfl := Files.writeAt_error hdraft
      exact Files.text?_congr hmade.workDirectory fun l _ => hmade.content l
    · next drafted hdraft =>
      obtain ⟨-, rfl⟩ := Files.writeAt_ok hdraft
      split at h
      · next hmove =>
        cases h
        have hmoved := Files.move_error hmove
        refine Files.text?_congr (hmoved.workDirectory.trans hmade.workDirectory) fun l hl => ?_
        -- The draft stands at another location than the file.
        have hfile : made.locate? file = some l := by simpa only [Files.locate?, hmade.workDirectory] using hl
        have hne : l ≠ l.draft made.process := (Location.draft_ne _ l).symm
        rw [hmoved.content, hfile, Option.getD_some, Files.content?_congr (Files.node?_put_of_ne _ hne)]
        exact hmade.content l
      · cases h

theorem save_ok {files after : Files} {file : Path} {r : Records}
    (h : save files file r = (after, .ok ())) : after.text? file = some r.text := by
  simp only [save] at h
  split at h
  · cases h
  · split at h
    · cases h
    · next drafted hdraft =>
      obtain ⟨hne, rfl⟩ := Files.writeAt_ok hdraft
      split at h
      · cases h
      · next hmove =>
        cases h
        exact Files.move_ok (Files.content?_put_text _ hne) hmove

def Written (s : Store) (before after : Files) : Prop :=
  match s.file with
  | none => after = before
  | some file => after.text? file = some s.records.text

def document? (s : Store) (files : Files) : Option String := s.file.bind files.text?

theorem write_error {s : Store} {files after : Files} {w : Write} {e : CatalogError}
    (h : s.write files w = (after, .error e)) :
    s.document? after = s.document? files ∧ ((∀ fault, e ≠ .storage fault) → after = files) := by
  simp only [write] at h
  split at h
  · cases h
    exact ⟨rfl, fun _ => rfl⟩
  · next r hr =>
    split at h
    · cases h
    · next file hfile =>
      split at h
      · next fault hsave =>
        cases h
        exact ⟨by simpa [document?, hfile] using save_error hsave, fun hne => absurd rfl (hne fault)⟩
      · cases h

theorem write_ok {s t : Store} {files after : Files} {w : Write}
    (h : s.write files w = (after, .ok t)) :
    s.records.write w = .ok t.records ∧ t.file = s.file ∧ t.Written files after := by
  simp only [write] at h
  split at h
  · cases h
  · next r hr =>
    split at h
    · next hfile =>
      cases h
      exact ⟨hr, rfl, by simp [Written, hfile]⟩
    · next file hfile =>
      split at h
      · cases h
      · next hsave =>
        cases h
        exact ⟨hr, rfl, by simpa [Written, hfile] using save_ok hsave⟩

end Store

end ServiceCatalog
