import ServiceCatalog.Files.Basic

namespace ServiceCatalog

namespace PathText

theorem display_of (s : String) : display (of s) = s := by
  simp only [display, of, List.map_map, Function.comp_def, PathUnit.shown, List.map_id', String.ofList_toList]

theorem mapM_char?_eq_some_iff {t : PathText} {cs : List Char} :
    t.mapM PathUnit.char? = some cs ↔ t = cs.map .char := by
  induction t generalizing cs with
  | nil => cases cs <;> simp
  | cons u t ih =>
    cases u with
    | stray bytes => cases cs <;> simp [PathUnit.char?]
    | char c =>
      simp only [List.mapM_cons, PathUnit.char?, Option.bind_eq_bind, Option.bind_some, Option.bind_eq_some_iff,
        Option.pure_def, ih]
      constructor
      · rintro ⟨r, rfl, h⟩
        cases h
        rfl
      · intro h
        obtain ⟨d, r, rfl, hd, ht⟩ := List.map_eq_cons_iff.1 h.symm
        cases hd
        exact ⟨r, ht.symm, rfl⟩

theorem text?_eq_some_iff {t : PathText} {s : String} : t.text? = some s ↔ t = of s := by
  rw [text?, of, ← mapM_char?_eq_some_iff, Option.map_eq_some_iff]
  exact ⟨fun ⟨_, hcs, heq⟩ => by rw [← heq, String.toList_ofList, hcs], fun h => ⟨_, h, String.ofList_toList⟩⟩

end PathText

theorem Location.draft_ne (process : Nat) (l : Location) : l.draft process ≠ l := by
  intro h
  have hlast := congrArg List.getLast? h
  rw [Location.draft, List.getLast?_concat] at hlast
  have hname : (l.draftName process).length = ((l.getLast?.map PathText.display).getD "catalog.json").length := by
    rw [← hlast, Option.map_some, Option.getD_some, PathText.display_of]
  simp only [Location.draftName, String.length_append] at hname
  have hdot : ".".length = 1 := rfl
  omega

namespace Files

theorem node?_put_self {f : Files} {l : Location} (n : FileNode) (hl : l ≠ []) :
    (f.put l n).node? l = some n := by
  simp [node?, put, List.isEmpty_iff, hl]

theorem node?_filter {nodes : List (Location × FileNode)} {l m : Location} (h : m ≠ l) :
    (nodes.filter (·.1 != l)).find? (·.1 == m) = nodes.find? (·.1 == m) := by
  rw [List.find?_filter]
  congr 1
  funext x
  by_cases hx : x.1 = m
  · subst hx; simp [h]
  · simp [hx]

theorem node?_put_of_ne {f : Files} {l m : Location} (n : FileNode) (h : m ≠ l) :
    (f.put l n).node? m = f.node? m := by
  simp only [node?, put, List.find?_cons, beq_false_of_ne (Ne.symm h), node?_filter h]

theorem content?_eq_some {f : Files} {l : Location} {s : String} :
    f.content? l = some s ↔ f.node? l = some (.text s) := by
  simp only [content?]
  split <;> simp_all

theorem content?_congr {f g : Files} {l : Location} (h : g.node? l = f.node? l) :
    g.content? l = f.content? l := by
  simp only [content?, h]

theorem content?_put_directory {f : Files} {l : Location} (h : f.node? l = none) (m : Location) :
    (f.put l .directory).content? m = f.content? m := by
  by_cases hm : m = l
  · subst hm
    have hl : m ≠ [] := by rintro rfl; simp [node?] at h
    simp [content?, node?_put_self _ hl, h]
  · exact content?_congr (node?_put_of_ne _ hm)

structure SameContent (f g : Files) : Prop where
  workDirectory : g.workDirectory = f.workDirectory
  content (l : Location) : g.content? l = f.content? l

namespace SameContent

theorem refl (f : Files) : SameContent f f := ⟨rfl, fun _ => rfl⟩

theorem trans {f g k : Files} (hfg : SameContent f g) (hgk : SameContent g k) : SameContent f k :=
  ⟨hgk.workDirectory.trans hfg.workDirectory, fun l => (hgk.content l).trans (hfg.content l)⟩

theorem attempt (f : Files) (l : Location) : SameContent f (f.attempt l).1 := ⟨rfl, fun _ => rfl⟩

end SameContent

theorem sameContent_makeEach (f : Files) (ls : List Location) : SameContent f (f.makeEach ls).1 := by
  induction ls generalizing f with
  | nil => exact .refl f
  | cons l r ih =>
    rw [makeEach]
    split
    · exact ih f
    · exact .refl f
    · next hl =>
      have hattempt := SameContent.attempt f l
      split
      · next heq => exact congrArg Prod.fst heq ▸ hattempt
      · next g heq =>
        obtain rfl : (f.attempt l).1 = g := congrArg Prod.fst heq
        have hput : SameContent (f.attempt l).1 ((f.attempt l).1.put l .directory) := ⟨rfl, content?_put_directory hl⟩
        exact (hattempt.trans hput).trans (ih _)

theorem sameContent_of_makeDirectories {f g : Files} {p : Path} {outcome : Except FileFault Unit}
    (h : f.makeDirectories p = (g, outcome)) : SameContent f g := by
  obtain rfl : (f.makeDirectories p).1 = g := congrArg Prod.fst h
  rw [makeDirectories]
  split
  · exact .refl f
  · exact sameContent_makeEach ..

theorem writeAt_error {f g : Files} {l : Location} {s : String} {fault : FileFault}
    (h : f.writeAt l s = (g, .error fault)) : g = (f.attempt l).1 := by
  simp only [writeAt] at h
  split at h
  · next heq => cases h; exact (congrArg Prod.fst heq).symm
  · next heq _ => cases h; exact (congrArg Prod.fst heq).symm
  · cases h
  · next heq _ =>
    split at h
    · cases h
    · cases h; exact (congrArg Prod.fst heq).symm

theorem writeAt_ok {f g : Files} {l : Location} {s : String} (h : f.writeAt l s = (g, .ok ())) :
    l ≠ [] ∧ g = (f.attempt l).1.put l (.text s) := by
  have hl : f.node? l ≠ some .directory → l ≠ [] := by rintro hn rfl; exact hn rfl
  simp only [writeAt] at h
  split at h
  · cases h
  · cases h
  · next heq hn => cases h; exact ⟨hl (by simp [hn]), by rw [heq]⟩
  · next heq hn =>
    split at h
    · cases h; exact ⟨hl (by simp [hn]), by rw [heq]⟩
    · cases h

theorem content?_put_text {f : Files} {l : Location} (s : String) (hl : l ≠ []) :
    (f.put l (.text s)).content? l = some s :=
  content?_eq_some.2 (node?_put_self _ hl)

theorem write_ok {f g : Files} {p : Path} {s : String} (h : f.write p s = (g, .ok ())) :
    g.workDirectory = f.workDirectory ∧ g.text? p = some s := by
  rw [write] at h
  split at h
  · cases h
  · next l hl =>
    obtain ⟨hne, rfl⟩ := writeAt_ok h
    have hp : ((f.attempt l).1.put l (.text s)).locate? p = some l := hl
    exact ⟨rfl, by rw [text?, hp, Option.bind_some, content?_put_text s hne]⟩

theorem move_error {f g : Files} {source : Location} {p : Path} {fault : FileFault}
    (h : f.move source p = (g, .error fault)) : SameContent f g := by
  rw [move] at h
  split at h
  · cases h; exact .refl f
  · split at h
    · cases h
    · cases h; exact ⟨rfl, fun _ => rfl⟩

theorem move_ok {f g : Files} {source : Location} {p : Path} {s : String}
    (hs : f.content? source = some s) (h : f.move source p = (g, .ok ())) : g.text? p = some s := by
  simp only [move, hs] at h
  split at h
  · next hwrite => cases h; exact (write_ok hwrite).2
  · cases h

theorem text?_congr {f g : Files} {p : Path} (hw : g.workDirectory = f.workDirectory)
    (hc : ∀ l, f.locate? p = some l → g.content? l = f.content? l) : g.text? p = f.text? p := by
  have hl : g.locate? p = f.locate? p := by simp only [locate?, hw]
  simp only [text?, hl]
  cases h : f.locate? p with
  | none => rfl
  | some l => exact hc l h

theorem read_of_text? {f : Files} {p : Path} {s : String} (h : f.text? p = some s) :
    f.read p = .ok s := by
  obtain ⟨l, hl, hs⟩ := Option.bind_eq_some_iff.1 h
  simp only [read, hl, content?_eq_some.1 hs]

theorem find?_of_text? {f : Files} {p : Path} {s : String} (h : f.text? p = some s) :
    f.find? p = some (.text s) := by
  obtain ⟨l, hl, hs⟩ := Option.bind_eq_some_iff.1 h
  simp only [find?, hl, Option.bind_some, content?_eq_some.1 hs]

end Files

end ServiceCatalog
