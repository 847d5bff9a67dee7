import Lineage.Json.Read
import Lineage.Proofs.Stored.Numeral
import Lineage.Proofs.Stored.Quoted

/-!
# Tokens read back

The texts of tokens are written one after the other, without blanks. They come
apart again at the same places: marks and quoted texts end by themselves, and a
word or a numeral is always followed by a mark or by nothing.
-/

namespace Lineage.Json

/-- The text written for a double is read as that double. -/
def ReadsBack (x : Float) : Prop := read? (float x).write = some (float x)

namespace Token

/-- The characters of some tokens. -/
def textOf (tokens : List Token) : List Char := tokens.flatMap fun token => token.text.toList

@[simp] theorem textOf_cons (token : Token) (tokens : List Token) :
    textOf (token :: tokens) = token.text.toList ++ textOf tokens := rfl

@[simp] theorem textOf_append (tokens tokens' : List Token) :
    textOf (tokens ++ tokens') = textOf tokens ++ textOf tokens' := List.flatMap_append

/-- The tokens are read from their text, if what follows is no part of a numeral. -/
def Scans (tokens : List Token) : Prop :=
  ∀ (limit : Nat) (rest : List Char) (read : List Token), Numeral.Stops rest →
    scanFrom? (tokens.length + limit) (textOf tokens ++ rest) read =
      scanFrom? limit rest (tokens.reverse ++ read)

/-- A token that is read from the front of its text. -/
theorem scanFrom?_succ {c : Char} {chars rest : List Char} {token : Token}
    (hblank : isBlank c = false) (htake : take? c chars = some (token, rest)) (limit : Nat)
    (read : List Token) :
    scanFrom? (limit + 1) (c :: chars) read = scanFrom? limit rest (token :: read) := by
  rw [scanFrom?, List.dropWhile_cons_of_neg (by simp [hblank])]
  dsimp only
  rw [htake]

/-! ## How texts of tokens are put together -/

theorem Scans.nil : Scans [] := fun limit rest read _ => by
  rw [List.length_nil, Nat.zero_add]
  rfl

/-- Tokens that are one character, and that character. -/
inductive IsMark : Token → Char → Prop
  | beginArray : IsMark .beginArray '['
  | endArray : IsMark .endArray ']'
  | beginObject : IsMark .beginObject '\x7b'
  | endObject : IsMark .endObject '\x7d'
  | comma : IsMark .comma ','
  | colon : IsMark .colon ':'

theorem IsMark.text {token : Token} {c : Char} (h : IsMark token c) :
    token.text.toList = [c] := by cases h <;> rfl

theorem IsMark.stops {token : Token} {c : Char} (h : IsMark token c) (rest : List Char) :
    Numeral.Stops (c :: rest) := by
  rintro _ ⟨⟩
  cases h <;> decide

theorem IsMark.scanFrom? {token : Token} {c : Char} (h : IsMark token c) (limit : Nat)
    (rest : List Char) (read : List Token) :
    scanFrom? (limit + 1) (c :: rest) read = Token.scanFrom? limit rest (token :: read) := by
  refine scanFrom?_succ ?_ ?_ limit read
  · cases h <;> rfl
  · cases h <;> rfl

/-- A mark ends by itself. -/
theorem Scans.mark {mark : Token} {c : Char} (hmark : IsMark mark c) {tokens : List Token}
    (h : Scans tokens) : Scans (mark :: tokens) := by
  intro limit rest read hrest
  rw [textOf_cons, hmark.text, List.length_cons, Nat.succ_add, List.append_assoc]
  refine (hmark.scanFrom? _ (textOf tokens ++ rest) read).trans ?_
  rw [h limit rest (mark :: read) hrest]
  simp

/-- A mark ends what stands in front of it. -/
theorem Scans.before {tokens tokens' : List Token} {mark : Token} {c : Char}
    (hmark : IsMark mark c) (h : Scans tokens) (h' : Scans (mark :: tokens')) :
    Scans (tokens ++ mark :: tokens') := by
  intro limit rest read hrest
  have hstops : Numeral.Stops (textOf (mark :: tokens') ++ rest) := by
    rw [textOf_cons, hmark.text]
    exact hmark.stops _
  rw [List.length_append, textOf_append, Nat.add_assoc, List.append_assoc,
    h _ _ read hstops, h' limit rest _ hrest]
  simp

/-- A quoted text ends by itself. -/
theorem Scans.string (s : String) {tokens : List Token} (h : Scans tokens) :
    Scans (.string (some s) :: tokens) := by
  intro limit rest read hrest
  have htext : textOf (.string (some s) :: tokens) ++ rest =
      '"' :: (s.toList.flatMap Quoted.encodeChar ++ '"' :: (textOf tokens ++ rest)) := by
    simp [text, Quoted.encode]
  have htake : take? '"' (s.toList.flatMap Quoted.encodeChar ++ '"' :: (textOf tokens ++ rest)) =
      some (.string (some s), textOf tokens ++ rest) := by
    rw [take?]
    simp [ofMark?, Quoted.decode?_encode]
  rw [htext, List.length_cons, Nat.succ_add]
  refine (scanFrom?_succ (by decide) htake _ read).trans ?_
  rw [h limit rest _ hrest]
  simp

/-! ## Words and numerals -/

/-- One token that is read from its text if a mark or nothing follows. -/
theorem Scans.single {token : Token} {c : Char} {chars : List Char}
    (htext : token.text.toList = c :: chars) (hblank : isBlank c = false)
    (htake : ∀ rest, Numeral.Stops rest → take? c (chars ++ rest) = some (token, rest)) :
    Scans [token] := by
  intro limit rest read hrest
  have heq : textOf [token] ++ rest = c :: (chars ++ rest) := by simp [textOf, htext]
  rw [heq, List.length_singleton, Nat.add_comm]
  exact scanFrom?_succ hblank (htake rest hrest) limit read

theorem Scans.null : Scans [.scalar .null] := by
  have htext : (scalar .null).text.toList = 'n' :: ['u', 'l', 'l'] := rfl
  exact Scans.single htext rfl fun _ _ => rfl

theorem Scans.bool (b : Bool) : Scans [.scalar (.bool b)] := by
  cases b
  · have htext : (scalar (.bool false)).text.toList = 'f' :: ['a', 'l', 's', 'e'] := rfl
    exact Scans.single htext rfl fun _ _ => rfl
  · have htext : (scalar (.bool true)).text.toList = 't' :: ['r', 'u', 'e'] := rfl
    exact Scans.single htext rfl fun _ _ => rfl

/-- The first character of a numeral. -/
def BeginsNumeral (c : Char) : Prop := c = '-' ∨ c.isDigit

theorem BeginsNumeral.ofMark? {c : Char} (h : BeginsNumeral c) : ofMark? c = none := by
  unfold Token.ofMark?
  split <;> first | rfl | exact absurd h (by unfold BeginsNumeral; decide)

theorem BeginsNumeral.isBlank {c : Char} (h : BeginsNumeral c) : isBlank c = false := by
  refine Bool.eq_false_iff.mpr fun hblank => ?_
  simp only [Token.isBlank, Bool.or_eq_true, decide_eq_true_eq] at hblank
  rcases hblank with ((rfl | rfl) | rfl) | rfl <;>
    exact absurd h (by unfold BeginsNumeral; decide)

theorem take?_of_beginsNumeral {c : Char} (h : BeginsNumeral c) (chars : List Char) :
    take? c chars =
      (Numeral.take? (c :: chars)).map fun taken => (.scalar taken.1.value, taken.2) := by
  have hquote : c ≠ '"' := by
    rintro rfl
    exact absurd h (by unfold BeginsNumeral; decide)
  have hbegins : (c = '-' || c.isDigit) = true := by
    rw [Bool.or_eq_true, decide_eq_true_eq]
    exact h
  rw [take?, h.ofMark?]
  dsimp only
  rw [if_neg hquote, if_pos hbegins]

/-- Numerals begin with a minus sign or a digit. -/
theorem beginsNumeral_of_take? {c : Char} {chars : List Char} {taken : Numeral × List Char}
    (h : Numeral.take? (c :: chars) = some taken) : BeginsNumeral c := by
  by_cases hminus : c = '-'
  · exact .inl hminus
  rw [Numeral.take?_unsigned (by simpa using hminus)] at h
  simp only [Numeral.takeUnsigned?, bind, Option.bind_eq_some_iff] at h
  obtain ⟨whole, hwhole, -⟩ := h
  by_contra hdigit
  have hnone : Numeral.takeDigits? (c :: chars) = none := by
    have hc : c.isDigit = false := Bool.eq_false_iff.mpr fun hc => hdigit (.inr hc)
    simp [Numeral.takeDigits?, hc]
  rw [Numeral.takeWhole?, hnone] at hwhole
  cases hwhole

/-- A scalar whose text is a numeral of its value. -/
theorem Scans.numeral {j : Json} {n : Numeral}
    (htake : Numeral.take? (Token.scalar j).text.toList = some (n, [])) (hvalue : n.value = j) :
    Scans [.scalar j] := by
  cases htext : (Token.scalar j).text.toList with
  | nil =>
      rw [htext] at htake
      cases htake
  | cons c chars =>
      rw [htext] at htake
      have hbegins := beginsNumeral_of_take? htake
      refine Scans.single htext hbegins.isBlank fun rest hrest => ?_
      rw [take?_of_beginsNumeral hbegins, ← List.cons_append, Numeral.take?_append hrest, htake]
      simp [Numeral.followedBy, hvalue]

theorem Scans.integer {n : Nat} (h : n < UInt64.size) : Scans [.scalar (.integer n)] := by
  have htext : (Token.scalar (.integer n)).text.toList = Nat.toDigits 10 n := Nat.toList_repr
  refine Scans.numeral ?_ (Numeral.value_toDigits h)
  rw [htext]
  exact Numeral.take?_toDigits n

/-! ## Whole texts -/

/-- Tokens are read from their text when nothing else is there. -/
theorem Scans.scanFrom? {tokens : List Token} (h : Scans tokens) (extra : Nat) :
    scanFrom? (tokens.length + (extra + 1)) (textOf tokens) [] = some tokens := by
  have hstops : Numeral.Stops [] := fun _ h => nomatch h
  have hread := h (extra + 1) [] [] hstops
  rw [List.append_nil, List.append_nil] at hread
  rw [hread, Token.scanFrom?]
  simp

theorem floatText_ne_nil (x : Float) : (floatText x).toList ≠ [] := by
  unfold floatText
  split
  · rename_i p _
    simp only [Number.Layout.write, String.toList_ofList]
    split
    · exact List.cons_ne_nil _ _
    · split
      · simp only [Number.Layout.inPlace]
        split
        · simp [Number.Layout.archive]
        · split <;> simp
      · simp [Number.withExponent]
  · decide

theorem text_ne_nil : ∀ token : Token, token.text.toList ≠ []
  | .beginArray | .endArray | .beginObject | .endObject | .comma | .colon => by decide
  | .string (some s) => by simp [text, Quoted.encode]
  | .string none => by decide
  | .scalar (.bool true) | .scalar (.bool false) => by decide
  | .scalar (.integer (.ofNat n)) => by
      show n.repr.toList ≠ []
      rw [Nat.toList_repr]
      exact Nat.toDigits_ne_nil
  | .scalar (.integer (.negSucc n)) => by
      show ("-" ++ (n + 1).repr).toList ≠ []
      simp
  | .scalar (.float x) => floatText_ne_nil x
  | .scalar .null | .scalar .unusable => by decide
  | .scalar (.string _) | .scalar (.array _) | .scalar (.object _) => by
      show "null".toList ≠ []
      decide

/-- No token is without characters. -/
theorem length_le_textOf (tokens : List Token) : tokens.length ≤ (textOf tokens).length := by
  induction tokens with
  | nil => exact Nat.zero_le _
  | cons token tokens ih =>
      have hpos := List.length_pos_of_ne_nil (text_ne_nil token)
      rw [textOf_cons, List.length_append, List.length_cons]
      omega

/-- **Tokens come apart again.** -/
theorem Scans.scan? {tokens : List Token} (h : Scans tokens) :
    scan? (String.join (tokens.map Token.text)) = some tokens := by
  have htext : (String.join (tokens.map Token.text)).toList = textOf tokens := by
    rw [String.toList_join, List.flatMap_map]
    rfl
  have hlength := length_le_textOf tokens
  unfold Token.scan?
  rw [← String.length_toList, htext]
  obtain ⟨extra, hextra⟩ := Nat.exists_eq_add_of_le hlength
  rw [hextra, Nat.add_assoc]
  exact h.scanFrom? extra

/-! ## Doubles -/

/-- What has been read stays read. -/
theorem prefix_of_scanFrom? {limit : Nat} {chars : List Char} {read tokens : List Token}
    (h : scanFrom? limit chars read = some tokens) : read.reverse <+: tokens := by
  induction limit generalizing chars read with
  | zero => cases h
  | succ limit ih =>
      rw [Token.scanFrom?] at h
      split at h
      · cases h
        exact List.prefix_refl _
      · split at h
        · rename_i token _ _
          have hread := ih h
          rw [List.reverse_cons] at hread
          exact (List.prefix_append _ _).trans hread
        · cases h

/-- A text of characters of numerals begins with a numeral, if it is read at all. -/
theorem scanFrom?_parts {c : Char} {chars : List Char} (h : Numeral.AllParts (c :: chars))
    {limit : Nat} {read tokens : List Token}
    (hscan : scanFrom? limit (c :: chars) read = some tokens) :
    ∃ limit' n rest, Numeral.take? (c :: chars) = some (n, rest) ∧
      scanFrom? limit' rest (.scalar n.value :: read) = some tokens := by
  have hpart : Numeral.isPart c := h c List.mem_cons_self
  cases limit with
  | zero => cases hscan
  | succ limit =>
      by_cases hbegins : BeginsNumeral c
      · rw [Token.scanFrom?, List.dropWhile_cons_of_neg (by simp [hbegins.isBlank])] at hscan
        dsimp only at hscan
        rw [take?_of_beginsNumeral hbegins] at hscan
        cases htake : Numeral.take? (c :: chars) with
        | none =>
            rw [htake] at hscan
            cases hscan
        | some taken =>
            rw [htake] at hscan
            exact ⟨limit, taken.1, taken.2, rfl, hscan⟩
      -- the other characters of numerals begin no token
      · have hc : c = '.' ∨ c = 'e' ∨ c = 'E' ∨ c = '+' := by
          simp only [Numeral.isPart, BeginsNumeral, Bool.or_eq_true, List.contains_iff_mem,
            List.mem_cons, List.not_mem_nil, or_false, not_or] at hpart hbegins
          rcases hpart with hdigit | hc | hc | hc | hc | hc
          · exact absurd hdigit hbegins.2
          · exact .inl hc
          · exact .inr (.inl hc)
          · exact .inr (.inr (.inl hc))
          · exact .inr (.inr (.inr hc))
          · exact absurd hc hbegins.1
        have hword : take? c chars = none := by rcases hc with rfl | rfl | rfl | rfl <;> rfl
        have hblank : isBlank c = false := by rcases hc with rfl | rfl | rfl | rfl <;> rfl
        rw [Token.scanFrom?, List.dropWhile_cons_of_neg (by simp [hblank])] at hscan
        dsimp only at hscan
        rw [hword] at hscan
        cases hscan

/-- A text of characters of numerals that is read as one value is one numeral. -/
theorem take?_of_read? {text : String} {j : Json} (hparts : Numeral.AllParts text.toList)
    (h : read? text = some j) :
    ∃ n, Numeral.take? text.toList = some (n, []) ∧ n.value = j := by
  obtain ⟨tokens, hscan, htokens⟩ := Option.bind_eq_some_iff.mp h
  unfold Token.scan? at hscan
  cases htext : text.toList with
  | nil =>
      rw [htext] at hscan
      cases hscan
      cases htokens
  | cons c chars =>
      rw [htext] at hscan hparts
      obtain ⟨limit, n, rest, htake, hrest⟩ := scanFrom?_parts hparts hscan
      cases rest with
      | nil =>
          refine ⟨n, htake, ?_⟩
          cases limit with
          | zero => cases hrest
          | succ limit =>
              cases hrest
              exact Option.some.inj htokens
      | cons c' chars' =>
          -- a second numeral right behind the first one would be a second value
          obtain ⟨limit', n', rest', -, hrest'⟩ :=
            scanFrom?_parts (hparts.suffix (Numeral.take?_suffix htake)) hrest
          obtain ⟨more, rfl⟩ := prefix_of_scanFrom? hrest'
          cases htokens

theorem write_float (x : Float) : write (.float x) = floatText x := by
  apply String.toList_inj.mp
  rw [write, String.toList_join]
  exact List.append_nil _

theorem Scans.float {x : Float} (h : ReadsBack x) : Scans [.scalar (.float x)] := by
  have hread : read? (floatText x) = some (.float x) := write_float x ▸ h
  have hparts : Numeral.AllParts (floatText x).toList := by
    unfold floatText at hread ⊢
    split at hread
    · exact Numeral.allParts_write _ _ _
    · have hnull : read? "null" = some .null := by
        unfold read?
        rw [show "null" = String.join ([Token.scalar .null].map Token.text) from rfl,
          Scans.null.scan?]
        rfl
      rw [hnull] at hread
      cases hread
  obtain ⟨n, htake, hvalue⟩ := take?_of_read? hparts hread
  exact Scans.numeral htake hvalue

end Token

end Lineage.Json
