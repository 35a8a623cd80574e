import ServiceCatalog.Toml.Codec

/-!
Quoted texts: whichever of the four forms a text is written in, the text is read back, whatever follows it but another
quote.
-/

namespace ServiceCatalog

namespace Toml

theorem hexValue?_toUpper : ∀ n < 16, hexValue? (hexDigit n).toUpper = some n := by decide

theorem toNat_of_not_isPrintable {c : Char} (h : isPrintable c = false) : c.toNat < 0x80 := by
  simp only [isPrintable, Bool.or_eq_false_iff, Bool.and_eq_false_iff, decide_eq_false_iff_not,
    bne_eq_false_iff_eq] at h
  omega

theorem scalar?_hexDigits {c : Char} (h : c.toNat < 0x80) :
    scalar? ['0', '0', (hexDigit (c.toNat / 16)).toUpper, (hexDigit (c.toNat % 16)).toUpper] = some c := by
  have hzero : hexValue? '0' = some 0 := by decide
  have hn : 16 * (c.toNat / 16) + c.toNat % 16 = c.toNat := by omega
  have hlow : c.toNat < 0xD800 := by omega
  simp [scalar?, hzero, hexValue?_toUpper (c.toNat / 16) (by omega), hexValue?_toUpper (c.toNat % 16) (by omega), hn,
    hlow]

theorem after_ok (front cs rest : List Char) : Reading.after front (.ok (cs, rest)) = .ok (front ++ cs, rest) := rfl

theorem ne_return_of_isPrintable {c : Char} (h : isPrintable c = true) : c ≠ '\r' := by
  rintro rfl
  cases h

theorem ne_newline_of_isPrintable {c : Char} (h : isPrintable c = true) : c ≠ '\n' := by
  rintro rfl
  cases h

section

variable {c : Char} (hquote : c ≠ '"') (hslash : c ≠ '\\')
include hquote hslash

theorem basicBody_char (hc : isPrintable c = true) (r : List Char) :
    basicBody (c :: r) = (basicBody r).after [c] := by
  rw [basicBody.eq_6 c r hquote (fun _ _ _ _ _ h => absurd h hslash) (fun _ _ _ _ _ _ _ _ _ h => absurd h hslash)
    (fun _ _ h => absurd h hslash)]
  simp [hc, hslash]

theorem longBasicBody_char (hc : c = '\n' ∨ isPrintable c = true) (r : List Char) :
    longBasicBody false (c :: r) = (longBasicBody false r).after [c] := by
  have hreturn : c ≠ '\r' := by
    rcases hc with rfl | hc
    · decide
    · exact ne_return_of_isPrintable hc
  rw [longBasicBody.eq_9 false c r (fun _ h => absurd h hquote) (fun _ h => absurd h hquote)
    (fun _ h => absurd h hquote) (fun _ h => absurd h hreturn) (fun _ _ _ _ _ h => absurd h hslash)
    (fun _ _ _ _ _ _ _ _ _ h => absurd h hslash) (fun _ _ h => absurd h hslash)]
  simpa [hslash] using fun hnewline hprint => absurd (hc.resolve_left hnewline) (by simp [hprint])

end

theorem basicBody_escape (c : Char) (r : List Char) : basicBody (escape false c ++ r) = (basicBody r).after [c] := by
  unfold escape
  split
  case h_8 hquote hslash =>
    split
    · next hc => exact basicBody_char hquote hslash hc r
    · next hc =>
      have hcode := toNat_of_not_isPrintable (Bool.eq_false_iff.2 hc)
      simp only [List.cons_append, List.nil_append, basicBody, scalar?_hexDigits hcode]
  all_goals rfl

theorem longBasicBody_escape (c : Char) (r : List Char) :
    longBasicBody false (escape true c ++ r) = (longBasicBody false r).after [c] := by
  unfold escape
  split
  case h_8 hquote hslash =>
    split
    · next hc => exact longBasicBody_char hquote hslash (.inr hc) r
    · next hc =>
      have hcode := toNat_of_not_isPrintable (Bool.eq_false_iff.2 hc)
      simp only [List.cons_append, List.nil_append, longBasicBody, scalar?_hexDigits hcode]
  case h_3 => exact longBasicBody_char (by decide) (by decide) (.inl rfl) r
  all_goals rfl

theorem basicBody_quoted (cs rest : List Char) :
    basicBody (cs.flatMap (escape false) ++ '"' :: rest) = .ok (cs, rest) := by
  induction cs with
  | nil => rfl
  | cons c cs ih => rw [List.flatMap_cons, List.append_assoc, basicBody_escape, ih, after_ok, List.singleton_append]

theorem longBasicBody_quoted (cs : List Char) {rest : List Char} (hrest : rest.head? ≠ some '"') :
    longBasicBody false (cs.flatMap (escape true) ++ '"' :: '"' :: '"' :: rest) = .ok (cs, rest) := by
  induction cs with
  | nil =>
    cases rest with
    | nil => rfl
    | cons d rest =>
      have hd : d ≠ '"' := fun h => hrest (congrArg some h)
      simp [longBasicBody, hd]
  | cons c cs ih =>
    rw [List.flatMap_cons, List.append_assoc, longBasicBody_escape, ih, after_ok, List.singleton_append]

theorem literalBody_quoted {cs : List Char} (hcs : ∀ c ∈ cs, isPrintable c = true ∧ c ≠ '\x27') (rest : List Char) :
    literalBody (cs ++ '\x27' :: rest) = .ok (cs, rest) := by
  induction cs with
  | nil => rfl
  | cons c cs ih =>
    obtain ⟨⟨hc, hquote⟩, hcs⟩ := List.forall_mem_cons.1 hcs
    rw [List.cons_append, literalBody.eq_3 c _ hquote, if_pos hc, ih hcs, after_ok, List.singleton_append]

theorem hasTripleQuote_tail {c : Char} {cs : List Char} (h : hasTripleQuote (c :: cs) = false) :
    hasTripleQuote cs = false := by
  unfold hasTripleQuote at h
  split at h
  · cases h
  · next heq =>
    obtain ⟨rfl, rfl⟩ := List.cons.inj heq
    exact h
  · next heq => cases heq

theorem getLast?_tail {c q : Char} {cs : List Char} (h : (c :: cs).getLast? ≠ some q) : cs.getLast? ≠ some q := by
  cases cs with
  | nil => exact nofun
  | cons d cs => rwa [List.getLast?_cons_cons] at h

theorem append_ne_quotes {c : Char} {cs : List Char} (htriple : hasTripleQuote (c :: cs) = false)
    (hlast : (c :: cs).getLast? ≠ some '\x27') (hc : c = '\x27') (rest r : List Char) :
    cs ++ rest ≠ '\x27' :: '\x27' :: r := by
  subst hc
  rintro h
  match cs, htriple, hlast, h with
  | [], _, hlast, _ => exact hlast rfl
  | [d], _, hlast, h =>
    obtain ⟨rfl, -⟩ := List.cons.inj h
    exact hlast rfl
  | d :: e :: cs, htriple, _, h =>
    have hd : d = '\x27' := (List.cons.inj h).1
    have he : e = '\x27' := (List.cons.inj (List.cons.inj h).2).1
    rw [hd, he] at htriple
    cases htriple

theorem longLiteralBody_quoted {cs : List Char} (hcs : ∀ c ∈ cs, c = '\n' ∨ isPrintable c = true)
    (htriple : hasTripleQuote cs = false) (hlast : cs.getLast? ≠ some '\x27') {rest : List Char}
    (hrest : rest.head? ≠ some '\x27') :
    longLiteralBody (cs ++ '\x27' :: '\x27' :: '\x27' :: rest) = .ok (cs, rest) := by
  induction cs with
  | nil =>
    cases rest with
    | nil => rfl
    | cons d rest =>
      have hd : d ≠ '\x27' := fun h => hrest (congrArg some h)
      simp [longLiteralBody, hd]
  | cons c cs ih =>
    obtain ⟨hc, hcs⟩ := List.forall_mem_cons.1 hcs
    have hreturn : c ≠ '\r' := by
      rcases hc with rfl | hc
      · decide
      · exact ne_return_of_isPrintable hc
    have hkept : (c == '\n' || isPrintable c) = true := by simpa using hc
    rw [List.cons_append, longLiteralBody.eq_6 c _ (fun _ hq h => append_ne_quotes htriple hlast hq _ _ h)
      (fun _ hq h => append_ne_quotes htriple hlast hq _ _ h) (fun _ hq h => append_ne_quotes htriple hlast hq _ _ h)
      (fun _ h => absurd h hreturn), if_pos hkept, ih hcs (hasTripleQuote_tail htriple) (getLast?_tail hlast), after_ok,
      List.singleton_append]

theorem isLiteral_iff {cs : List Char} :
    isLiteral cs = true ↔ (∃ c ∈ cs, c = '"' ∨ c = '\\') ∧ (∀ c ∈ cs, c = '\n' ∨ isPrintable c = true) ∧
      hasTripleQuote cs = false ∧ cs.getLast? ≠ some '\x27' := by
  simp [isLiteral, and_assoc]

def Apart (rest : List Char) : Prop := rest.head? ≠ some '"' ∧ rest.head? ≠ some '\x27'

theorem quoted?_basic {r : List Char} (h : ∀ r', r ≠ '"' :: '"' :: r') : quoted? ('"' :: r) = some (basicBody r) := by
  unfold quoted?
  split <;> simp_all

theorem quoted?_literal {r : List Char} (h : ∀ r', r ≠ '\x27' :: '\x27' :: r') :
    quoted? ('\x27' :: r) = some (literalBody r) := by
  unfold quoted?
  split <;> simp_all

theorem trimNewline_of_isPrintable {c : Char} (hc : isPrintable c = true) (r : List Char) :
    trimNewline (c :: r) = c :: r := by
  have hnewline := ne_newline_of_isPrintable hc
  have hreturn := ne_return_of_isPrintable hc
  have hnone : newline? (c :: r) = none := by
    unfold newline?
    split <;> simp_all
  rw [trimNewline, hnone]
  rfl

theorem head?_escape (long : Bool) (c : Char) (r : List Char) : (escape long c ++ r).head? ≠ some '"' := by
  unfold escape
  split
  case h_8 hquote hslash =>
    split
    · simpa using hquote
    · simp
  case h_3 => cases long <;> simp
  all_goals simp

variable {rest : List Char}

theorem quoted?_quote_literal {cs : List Char} (hliteral : isLiteral cs = true) (hrest : Apart rest) :
    quoted? (quote cs ++ rest) = some (.ok (cs, rest)) := by
  obtain ⟨⟨special, hspecial, hkind⟩, hchars, htriple, hlast⟩ := isLiteral_iff.1 hliteral
  have hlong := longLiteralBody_quoted hchars htriple hlast hrest.2
  rw [quote, if_pos hliteral]
  by_cases hnewline : '\n' ∈ cs
  · have hcontains : cs.contains '\n' = true := by simpa using hnewline
    simp only [hcontains, Bool.true_or, if_true, List.cons_append, List.nil_append, List.append_assoc]
    exact congrArg some hlong
  · have hprint : ∀ c ∈ cs, isPrintable c = true := by
      intro c hc
      exact (hchars c hc).resolve_left fun h => hnewline (h ▸ hc)
    have hcontains : cs.contains '\n' = false := by simpa using hnewline
    obtain ⟨c, cs, rfl⟩ := List.exists_cons_of_ne_nil (List.ne_nil_of_mem hspecial)
    by_cases hquote : '\x27' ∈ c :: cs
    · have hquotes : (c :: cs).contains '\x27' = true := by simpa using hquote
      simp only [hcontains, hquotes, Bool.false_or, if_true, Bool.false_eq_true, if_false, List.cons_append,
        List.nil_append, List.append_assoc]
      rw [List.cons_append] at hlong
      rw [quoted?, trimNewline_of_isPrintable (hprint c List.mem_cons_self), hlong]
    · have hquotes : (c :: cs).contains '\x27' = false := by simpa using hquote
      have hchars : ∀ d ∈ c :: cs, isPrintable d = true ∧ d ≠ '\x27' :=
        fun d hd => ⟨hprint d hd, fun h => hquote (h ▸ hd)⟩
      simp only [hcontains, hquotes, Bool.false_or, Bool.false_eq_true, if_false, List.cons_append, List.nil_append,
        List.append_assoc]
      have hfirst : ∀ r', c :: (cs ++ '\x27' :: rest) ≠ '\x27' :: '\x27' :: r' :=
        fun r' h => (hchars c List.mem_cons_self).2 (List.cons.inj h).1
      exact (quoted?_literal hfirst).trans (congrArg some (literalBody_quoted hchars rest))

theorem quoted?_quote (cs : List Char) (hrest : Apart rest) :
    quoted? (quote cs ++ rest) = some (.ok (cs, rest)) := by
  by_cases hliteral : isLiteral cs = true
  · exact quoted?_quote_literal hliteral hrest
  · rw [quote, if_neg hliteral]
    by_cases hnewline : '\n' ∈ cs
    · have hcontains : cs.contains '\n' = true := by simpa using hnewline
      simp only [hcontains, if_true, List.cons_append, List.nil_append, List.append_assoc]
      exact congrArg some (longBasicBody_quoted cs hrest.1)
    · have hcontains : cs.contains '\n' = false := by simpa using hnewline
      simp only [hcontains, Bool.false_eq_true, if_false, List.cons_append, List.nil_append, List.append_assoc]
      have hfirst : ∀ r', cs.flatMap (escape false) ++ '"' :: rest ≠ '"' :: '"' :: r' := by
        intro r' h
        cases cs with
        | nil => exact hrest.1 (by rw [(List.cons.inj h).2]; rfl)
        | cons c cs =>
          rw [List.flatMap_cons, List.append_assoc] at h
          exact head?_escape false c _ (by rw [h]; rfl)
      exact (quoted?_basic hfirst).trans (congrArg some (basicBody_quoted cs rest))

theorem quote_eq_cons (cs : List Char) : ∃ c r, quote cs = c :: r ∧ (c = '"' ∨ c = '\x27') := by
  unfold quote
  dsimp only
  split
  · split <;> exact ⟨_, _, rfl, .inr rfl⟩
  · split <;> exact ⟨_, _, rfl, .inl rfl⟩

end Toml

end ServiceCatalog
