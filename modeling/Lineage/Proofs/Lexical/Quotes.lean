import Lineage.Proofs.Lexical.Gap

/-!
# String literals

Between its quotes a string literal has characters that stand for themselves and
escapes: a letter with a meaning of its own, the number of a character in four
digits, the end of a line, which stands for nothing, and any other character
for itself. What a literal is read as is what its text stands for, and a text
that stands for something is read up to the closing quote.

Every string can be written between quotes, whatever its characters are.
-/

namespace Lineage.Token

/-- `Quoted quote body s`: between two characters `quote`, the text `body` stands for `s`. -/
inductive Quoted (quote : Char) : List Char → List Char → Prop
  | nothing : Quoted quote [] []
  | plain {c : Char} {body s : List Char} :
      c ≠ quote → c ≠ '\\' → c ≠ '\n' → Quoted quote body s → Quoted quote (c :: body) (c :: s)
  /-- A backslash joins a line with the next. -/
  | joined {body s : List Char} : Quoted quote body s → Quoted quote ('\\' :: '\n' :: body) s
  | unicode {digits : List Char} {e : Char} {body s : List Char} :
      digits.length = 4 → (∀ d ∈ digits, Text.isHexDigit d) → e.toNat = Text.hexValue digits →
      Quoted quote body s → Quoted quote ('\\' :: 'u' :: (digits ++ body)) (e :: s)
  | escape {c : Char} {body s : List Char} :
      c ≠ '\n' → c ≠ 'u' → Quoted quote body s →
      Quoted quote ('\\' :: c :: body) (escapedLetter c :: s)

variable {quote : Char} {opening : Location} {chars rest body s read : List Char} {m : Mark}
  {r : Remaining} {text : String}

/-- Four digits are the escape of the character with their number. -/
theorem escapedChar_eq_ok_iff {digits : List Char} {e : Char} :
    escapedChar opening digits = .ok e ↔
      (∀ d ∈ digits, Text.isHexDigit d) ∧ e.toNat = Text.hexValue digits := by
  unfold escapedChar
  by_cases hall : ∀ d ∈ digits, Text.isHexDigit d
  · rw [if_neg (by simpa using hall)]
    by_cases hvalid : (Text.hexValue digits).isValidChar
    · rw [dif_pos hvalid]
      constructor
      · intro h
        cases h
        exact ⟨hall, rfl⟩
      · rintro ⟨-, he⟩
        exact congrArg Except.ok (Char.toNat_inj.mp he.symm)
    · rw [dif_neg hvalid]
      exact ⟨nofun, fun ⟨_, he⟩ => absurd (he ▸ e.valid) hvalid⟩
  · rw [if_pos (by simpa using hall)]
    exact ⟨nofun, fun h => absurd h.1 hall⟩

/-! ## What is read stands between the quotes -/

/-- What was read of `chars` behind `read` is the text in front of the closing quote. -/
def ReadQuoted (quote : Char) (chars : List Char) (m : Mark) (read : List Char) (text : String)
    (r : Remaining) : Prop :=
  ∃ body s, chars = body ++ quote :: r.chars ∧ Quoted quote body s ∧
    text = String.ofList (read.reverse ++ s) ∧ r.mark = m.afterAll (body ++ [quote])

namespace ReadQuoted

theorem closed (rest : List Char) (m : Mark) (read : List Char) :
    ReadQuoted quote (quote :: rest) m read (String.ofList read.reverse) ⟨rest, m.after quote⟩ :=
  ⟨[], [], rfl, .nothing, by simp, rfl⟩

/-- A piece `front` that stands for `meant` and whatever follows it. -/
theorem push (front meant : List Char)
    (hfront : ∀ {body s}, Quoted quote body s → Quoted quote (front ++ body) (meant ++ s))
    (h : ReadQuoted quote chars (m.afterAll front) (meant.reverse ++ read) text r) :
    ReadQuoted quote (front ++ chars) m read text r := by
  obtain ⟨body, s, rfl, hbody, rfl, hmark⟩ := h
  refine ⟨front ++ body, meant ++ s, by simp, hfront hbody, by simp, ?_⟩
  rw [hmark, List.append_assoc, Mark.afterAll_append m front]

end ReadQuoted

theorem readQuoted_of_stringChars (h : stringChars quote opening chars m read = .ok (text, r)) :
    ReadQuoted quote chars m read text r := by
  fun_induction stringChars quote opening chars m read with
  | case1 | case3 | case7 | case9 => cases h
  | case6 m read d₁ d₂ d₃ d₄ rest e he hquote => cases h
  | case2 rest m read =>
      cases h
      exact .closed rest m read
  | case4 m read rest hquote ih => exact .push ['\\', '\n'] [] .joined (ih h)
  | case5 m read d₁ d₂ d₃ d₄ rest e he hquote ih =>
      obtain ⟨hdigits, hvalue⟩ := escapedChar_eq_ok_iff.mp he
      exact .push ['\\', 'u', d₁, d₂, d₃, d₄] [e]
        (fun hbody => .unicode rfl hdigits hvalue hbody) (ih h)
  | case8 m read e rest hnewline _ hletter hquote ih =>
      exact .push ['\\', e] [escapedLetter e] (.escape hnewline hletter) (ih h)
  | case10 c rest m read hquote hbackslash hnewline ih =>
      exact .push [c] [c] (.plain hquote hbackslash hnewline) (ih h)

/-! ## What stands between the quotes is read -/

theorem stringChars_append (hquote : quote = '"' ∨ quote = '\'') (h : Quoted quote body s)
    (rest : List Char) (m : Mark) (read : List Char) :
    stringChars quote opening (body ++ quote :: rest) m read =
      .ok (String.ofList (read.reverse ++ s), ⟨rest, m.afterAll (body ++ [quote])⟩) := by
  have hbackslash : ¬ '\\' = quote := by
    rcases hquote with rfl | rfl <;> decide
  -- the induction is on what stands between the quotes, over any that was read before
  induction h generalizing m read with
  | nothing =>
      rw [List.nil_append, stringChars.eq_def]
      simp
  | @plain c body s hc hescape hnewline _ ih =>
      rw [List.cons_append, stringChars.eq_def]
      dsimp only
      rw [if_neg hc, if_neg hescape, if_neg hnewline, ih]
      simp
  | @joined body s _ ih =>
      rw [List.cons_append, List.cons_append, stringChars.eq_def]
      dsimp only
      rw [if_neg hbackslash, if_pos rfl]
      exact ih (m.afterAll ['\\', '\n']) read
  | @unicode digits e body s hlength hdigits hvalue _ ih =>
      obtain ⟨d₁, d₂, d₃, d₄, rfl⟩ := List.length_eq_four.mp hlength
      have hchar : escapedChar opening [d₁, d₂, d₃, d₄] = .ok e :=
        escapedChar_eq_ok_iff.mpr ⟨hdigits, hvalue⟩
      rw [List.cons_append, List.cons_append, List.append_assoc, stringChars.eq_def]
      dsimp only [List.cons_append, List.nil_append]
      rw [if_neg hbackslash, if_pos rfl]
      split
      · rename_i heq
        cases heq
      · rename_i heq
        cases heq
      · rename_i heq
        cases heq
        rw [hchar]
        dsimp only
        rw [ih]
        simp
      -- four digits follow, so the branches for other escapes are not taken
      · rename_i hshort heq
        cases heq
        exact absurd rfl (hshort d₁ d₂ d₃ d₄ _)
      · rename_i hletter heq
        cases heq
        exact (hletter rfl).elim
  | @escape c body s hnewline hletter _ ih =>
      rw [List.cons_append, List.cons_append, stringChars.eq_def]
      dsimp only
      rw [if_neg hbackslash, if_pos rfl]
      split
      · rename_i heq
        cases heq
      · rename_i heq
        exact absurd (List.cons.inj heq).1 hnewline
      · rename_i heq
        exact absurd (List.cons.inj heq).1 hletter
      · rename_i heq
        exact absurd (List.cons.inj heq).1 hletter
      · rename_i heq
        cases heq
        rw [ih]
        simp

/-- **A string literal is read exactly where one stands.** -/
theorem stringChars_eq_ok_iff (hquote : quote = '"' ∨ quote = '\'') :
    stringChars quote opening chars m read = .ok (text, r) ↔
      ReadQuoted quote chars m read text r := by
  constructor
  · exact readQuoted_of_stringChars
  · rintro ⟨body, s, rfl, hbody, rfl, hmark⟩
    rw [stringChars_append hquote hbody, ← hmark]

/-! ## Writing a string -/

/-- How a character is written between quotes. -/
def escape (quote c : Char) : List Char :=
  if c = '\n' then ['\\', 'n'] else if c = '\\' ∨ c = quote then ['\\', c] else [c]

/-- Every string is what the text that is written for it stands for. -/
theorem quoted_escape (hquote : quote = '"' ∨ quote = '\'') (s : List Char) :
    Quoted quote (s.flatMap (escape quote)) s := by
  induction s with
  | nil => exact .nothing
  | cons c s ih =>
      rw [List.flatMap_cons]
      unfold escape
      split
      · rename_i hc
        subst hc
        exact .escape (c := 'n') (by decide) (by decide) ih
      · rename_i hnewline
        split
        · rename_i hc
          have hself : escapedLetter c = c ∧ c ≠ 'u' := by
            rcases hc with rfl | rfl
            · decide
            · rcases hquote with rfl | rfl <;> decide
          have h := Quoted.escape hnewline hself.2 ih
          rwa [hself.1] at h
        · rename_i hc
          rw [not_or] at hc
          exact .plain hc.2 hc.1 hnewline ih

end Lineage.Token
