import Lineage.Proofs.Lexical.Spells

/-!
# Tokens tile the text

A text that can be cut into tokens is a sequence of gaps and tokens in turn: a
gap, a stretch that spells a token, and so on, up to a last gap with the ending
behind it. Nothing is left out and nothing is read twice, and every token knows
the place where its stretch starts. Scanning finds the tokens exactly where there
is such a sequence, so there is at most one.

A token also says whether a line ended in front of it. What it says counts from
where the token before it starts, not from where that ends. The two differ only
behind a string with a backslash at the end of a line.
-/

namespace Lineage.Token

/--
`Tiling before since tokens text`: behind the characters `before`, of which
`since` are the token read last, `text` is tiled by the tokens and the gaps in
front of them.
-/
inductive Tiling : (before since : List Char) → List Token → (text : List Char) → Prop
  | ending {before since gap : List Char} :
      Gap [] gap →
      Tiling before since [⟨.ending, .behind (before ++ gap), decide ('\n' ∈ since ++ gap)⟩] gap
  | token {before since gap stretch after : List Char} {kind : TokenKind} {tokens : List Token} :
      Gap (stretch ++ after) gap → GapEnds (stretch ++ after) →
      stretch ≠ [] → Spells kind stretch after →
      Tiling (before ++ gap ++ stretch) stretch tokens after →
      Tiling before since
        (⟨kind, .behind (before ++ gap), decide ('\n' ∈ since ++ gap)⟩ :: tokens)
        (gap ++ (stretch ++ after))

variable {before since gap left stretch rest chars : List Char} {m : Mark} {kind : TokenKind}
  {r : Remaining} {t : Token} {tokens : List Token} {limit : Nat}

theorem Spells.ne_nil (h : Spells kind stretch rest) : stretch ≠ [] := by
  cases h with
  | @identifier name _ hword =>
      rintro rfl
      exact hword
  | @keyword k => cases k <;> decide
  | @number n =>
      intro hnil
      have hstarts := startsNumber_literal n []
      rw [hnil] at hstarts
      exact hstarts
  | string => simp
  | @symbol s => cases s <;> decide

theorem Spells.ne_ending (h : Spells kind stretch rest) : kind ≠ .ending := by
  rintro rfl
  cases h

/-! ## One token -/

/-- Behind a gap, the next token is what is taken there, with its place. -/
theorem next_append (hgap : Gap left gap) (hends : GapEnds left) :
    next ⟨gap ++ left, .behind before since⟩ =
      (take left (.behind (before ++ gap) [])).map fun taken =>
        (⟨taken.1, .behind (before ++ gap), decide ('\n' ∈ since ++ gap)⟩, taken.2) := by
  unfold next
  rw [skipBlanks_append hgap hends, Mark.afterAll_behind]
  show (take left (.behind (before ++ gap) []) >>= _) = _
  cases take left (.behind (before ++ gap) []) <;> rfl

/-- In front of what is read as a token stands a gap, as long as it can be. -/
theorem exists_gap (h : next ⟨chars, m⟩ = .ok (t, r)) :
    ∃ gap left, chars = gap ++ left ∧ Gap left gap ∧ GapEnds left := by
  unfold next at h
  cases hskip : skipBlanks chars m with
  | error e => rw [hskip] at h; cases h
  | ok here =>
      obtain ⟨gap, rfl, hgap, hends, -⟩ := skipBlanks_eq_ok_iff.mp hskip
      exact ⟨gap, here.chars, rfl, hgap, hends⟩

/-- What is read as a token in front of the ending is a stretch that spells one. -/
theorem exists_spelled {c : Char} (hgap : Gap (c :: left) gap) (hends : GapEnds (c :: left))
    (h : next ⟨gap ++ c :: left, .behind before since⟩ = .ok (t, r)) :
    ∃ kind stretch rest, c :: left = stretch ++ rest ∧ Spells kind stretch rest := by
  rw [next_append hgap hends] at h
  cases htake : take (c :: left) (.behind (before ++ gap) []) with
  | error e => rw [htake] at h; cases h
  | ok taken =>
      obtain ⟨stretch, hleft, hspells, -⟩ := take_eq_ok_iff.mp htake
      exact ⟨taken.1, stretch, taken.2.chars, hleft, hspells⟩

/-- At the end of a text the next token is its ending. -/
theorem next_ending (hgap : Gap [] gap) :
    next ⟨gap, .behind before since⟩ =
      .ok (⟨.ending, .behind (before ++ gap), decide ('\n' ∈ since ++ gap)⟩,
        ⟨[], .behind (before ++ gap) []⟩) := by
  have h : next ⟨gap ++ [], .behind before since⟩ = _ := next_append hgap trivial
  rwa [List.append_nil] at h

/-- In front of a stretch that spells a token, the next token is that one. -/
theorem next_spelled (hgap : Gap (stretch ++ rest) gap) (hends : GapEnds (stretch ++ rest))
    (hspells : Spells kind stretch rest) :
    next ⟨gap ++ (stretch ++ rest), .behind before since⟩ =
      .ok (⟨kind, .behind (before ++ gap), decide ('\n' ∈ since ++ gap)⟩,
        ⟨rest, .behind (before ++ gap ++ stretch) stretch⟩) := by
  rw [next_append hgap hends, take_append hspells, Mark.afterAll_behind]
  rfl

/-! ## All tokens -/

/-- One round of the scan that does not end it. -/
theorem scanFrom_succ (h : next ⟨chars, m⟩ = .ok (t, r)) (hkind : t.kind ≠ .ending) :
    scanFrom (limit + 1) ⟨chars, m⟩ = (scanFrom limit r).map (t :: ·) := by
  rw [scanFrom, h]
  show (if t.kind = .ending then _ else _) = _
  rw [if_neg hkind]
  cases scanFrom limit r <;> rfl

theorem scanFrom_ending (h : next ⟨chars, m⟩ = .ok (t, r)) (hkind : t.kind = .ending) :
    scanFrom (limit + 1) ⟨chars, m⟩ = .ok [t] := by
  rw [scanFrom, h]
  show (if t.kind = .ending then _ else _) = _
  rw [if_pos hkind]
  rfl

/-- What is scanned tiles the text. -/
theorem tiling_of_scanFrom (hlimit : chars.length < limit)
    (h : scanFrom limit ⟨chars, .behind before since⟩ = .ok tokens) :
    Tiling before since tokens chars := by
  induction limit generalizing chars before since tokens with
  | zero => cases hlimit
  | succ limit ih =>
      cases hnext : next ⟨chars, .behind before since⟩ with
      | error e => rw [scanFrom, hnext] at h; cases h
      | ok taken =>
          -- one round: a gap, and behind it either the end or one token
          obtain ⟨gap, left, rfl, hgap, hends⟩ := exists_gap hnext
          cases left with
          | nil =>
              have hending : next ⟨gap, .behind before since⟩ = _ := next_ending hgap
              rw [List.append_nil] at h ⊢
              rw [scanFrom_ending hending rfl] at h
              cases h
              exact .ending hgap
          | cons c left =>
              obtain ⟨kind, stretch, rest, hleft, hspells⟩ := exists_spelled hgap hends hnext
              rw [hleft] at hgap hends h hlimit ⊢
              rw [scanFrom_succ (next_spelled hgap hends hspells) hspells.ne_ending] at h
              have hpos := List.length_pos_iff.mpr hspells.ne_nil
              simp only [List.length_append] at hlimit
              cases hscan : scanFrom limit ⟨rest, .behind (before ++ gap ++ stretch) stretch⟩ with
              | error e => rw [hscan] at h; cases h
              | ok tail =>
                  rw [hscan] at h
                  cases h
                  exact .token hgap hends hspells.ne_nil hspells (ih (by omega) hscan)

/-- A tiling is what is scanned. -/
theorem Tiling.scanFrom (h : Tiling before since tokens chars) (hlimit : chars.length < limit) :
    scanFrom limit ⟨chars, .behind before since⟩ = .ok tokens := by
  induction h generalizing limit with
  | ending hgap =>
      obtain ⟨limit, rfl⟩ := Nat.exists_eq_succ_of_ne_zero (Nat.ne_zero_of_lt hlimit)
      exact scanFrom_ending (next_ending hgap) rfl
  | token hgap hends hne hspells _ ih =>
      obtain ⟨limit, rfl⟩ := Nat.exists_eq_succ_of_ne_zero (Nat.ne_zero_of_lt hlimit)
      have hpos := List.length_pos_iff.mpr hne
      simp only [List.length_append] at hlimit
      rw [scanFrom_succ (next_spelled hgap hends hspells) hspells.ne_ending, ih (by omega)]
      rfl

theorem length_lt_limit (text : String) : text.toList.length < text.length + 1 := by
  rw [String.length_toList]
  exact Nat.lt_succ_self _

theorem tiling_of_scan {text : String} (h : scan text = .ok tokens) :
    Tiling [] [] tokens text.toList :=
  tiling_of_scanFrom (length_lt_limit text) h

theorem Tiling.scan {text : String} (h : Tiling [] [] tokens text.toList) :
    scan text = .ok tokens :=
  h.scanFrom (length_lt_limit text)

/-- **Tokens tile the text they are scanned from**, and are scanned from the text they tile. -/
theorem scan_eq_ok_iff (text : String) :
    scan text = .ok tokens ↔ Tiling [] [] tokens text.toList :=
  ⟨tiling_of_scan, Tiling.scan⟩

/-! ## Ends of lines in front of a token -/

/-- Between quotes, only a backslash goes in front of the end of a line. -/
theorem Quoted.joins {quote : Char} {body s : List Char} (h : Quoted quote body s)
    (hnewline : '\n' ∈ body) : ['\\', '\n'] <:+: body := by
  induction h with
  | nothing => cases hnewline
  | plain _ _ hc _ ih =>
      exact List.infix_cons (ih (List.mem_of_ne_of_mem (Ne.symm hc) hnewline))
  | @joined body s _ _ => exact (List.prefix_append ['\\', '\n'] body).isInfix
  | @unicode digits e body s _ hdigits _ _ ih =>
      have hmem : '\n' ∈ digits ++ body := by simpa using hnewline
      rcases List.mem_append.mp hmem with hmem | hmem
      · exact absurd (hdigits '\n' hmem) (by decide)
      · exact List.infix_cons (List.infix_cons
          ((ih hmem).trans (List.suffix_append digits body).isInfix))
  | @escape c body s hc _ _ ih =>
      have hmem : '\n' ∈ body := by simpa [Ne.symm hc] using hnewline
      exact List.infix_cons (List.infix_cons (ih hmem))

/-- Only a string goes over the end of a line, and only behind a backslash. -/
theorem Spells.joins (h : Spells kind stretch rest) (hnewline : '\n' ∈ stretch) :
    (∃ s, kind = .string s) ∧ ['\\', '\n'] <:+: stretch := by
  cases h with
  | identifier hword =>
      cases stretch with
      | nil => cases hnewline
      | cons c cs =>
          rcases List.mem_cons.mp hnewline with rfl | hmem
          · exact absurd hword.1 (by decide)
          · exact absurd (hword.2 '\n' hmem) (by decide)
  | @keyword k => cases k <;> exact absurd hnewline (by decide)
  | @number n => exact absurd (n.mem_text '\n' hnewline) (by decide)
  | @string quote body s _ hquote hbody =>
      have hmem : '\n' ∈ body := by
        rcases hquote with rfl | rfl <;> simpa using hnewline
      exact ⟨⟨_, rfl⟩,
        List.infix_cons ((hbody.joins hmem).trans (List.prefix_append body [quote]).isInfix)⟩
  | @symbol s => cases s <;> exact absurd hnewline (by decide)

theorem Spells.mem_newline_iff (h : Spells kind stretch rest) :
    '\n' ∈ stretch ↔ ['\\', '\n'] <:+: stretch :=
  ⟨fun hnewline => (h.joins hnewline).2, fun hjoined => hjoined.subset (by simp)⟩

/--
`t'` comes behind `t`: the text is the stretch of `t`, a gap and the start of
`t'`, with something in front and behind. A line has ended in front of `t'` if
one ends in the gap, and also if `t` joins two lines.
-/
def Follows (text : List Char) (t t' : Token) : Prop :=
  ∃ front stretch gap rest, text = front ++ stretch ++ gap ++ rest ∧
    t.loc = .behind front ∧ Spells t.kind stretch (gap ++ rest) ∧ Gap rest gap ∧
    t'.loc = .behind (front ++ stretch ++ gap) ∧
    (t'.newlineBefore ↔ '\n' ∈ gap ∨ ['\\', '\n'] <:+: stretch)

/-- The first token comes behind a gap alone. -/
def Leads (text : List Char) (t : Token) : Prop :=
  ∃ gap rest, text = gap ++ rest ∧ Gap rest gap ∧ t.loc = .behind gap ∧
    (t.newlineBefore ↔ '\n' ∈ gap)

/-- The first token of a tiling, behind `before`. -/
theorem Tiling.exists_gap (h : Tiling before since (t :: tokens) chars) :
    ∃ gap rest, chars = gap ++ rest ∧ Gap rest gap ∧ t.loc = .behind (before ++ gap) ∧
      (t.newlineBefore ↔ '\n' ∈ since ++ gap) := by
  cases h with
  | ending hgap => exact ⟨chars, [], by simp, hgap, rfl, decide_eq_true_iff⟩
  | @token _ _ gap stretch after _ _ hgap =>
      exact ⟨gap, stretch ++ after, rfl, hgap, rfl, decide_eq_true_iff⟩

theorem Tiling.follows (h : Tiling before since tokens chars) :
    tokens.IsChain (Follows (before ++ chars)) := by
  induction h with
  | ending => exact .singleton _
  | @token before since gap stretch after kind tokens hgap hends _ hspells htail ih =>
      cases tokens with
      | nil => exact .singleton _
      | cons t' tokens =>
          have htext : before ++ gap ++ stretch ++ after =
              before ++ (gap ++ (stretch ++ after)) := by simp
          rw [htext] at ih
          refine .cons_cons ?_ ih
          obtain ⟨gap', rest, rfl, hgap', hloc, hnewline⟩ := htail.exists_gap
          refine ⟨before ++ gap, stretch, gap', rest, by simp, rfl, hspells, hgap', hloc, ?_⟩
          rw [hnewline, List.mem_append, hspells.mem_newline_iff]
          exact Or.comm

/-! ## Places tell tokens apart -/

/-- Further on in a text is another place. -/
theorem eq_nil_of_behind_append {xs ys : List Char}
    (h : Location.behind (xs ++ ys) = Location.behind xs) : ys = [] := by
  injection h with hline hcolumn
  have hlines : '\n' ∉ ys := by
    rw [List.count_append] at hline
    exact List.count_eq_zero.mp (by omega)
  have hsame : ∀ c ∈ ys.reverse, decide (c ≠ '\n') = true := by
    intro c hc
    simpa using fun hnewline : c = '\n' => hlines (hnewline ▸ List.mem_reverse.mp hc)
  rw [List.reverse_append, List.takeWhile_append_of_pos hsame, List.length_append,
    List.length_reverse] at hcolumn
  exact List.length_eq_zero_iff.mp (by omega)

/-- A token stands behind the part of the text in front of it. -/
theorem Tiling.exists_front (h : Tiling before since tokens chars) :
    ∀ t ∈ tokens, ∃ front, t.loc = .behind (before ++ front) := by
  induction h with
  | @ending _ _ gap _ =>
      intro t ht
      obtain rfl := List.mem_singleton.mp ht
      exact ⟨gap, rfl⟩
  | @token before _ gap stretch _ _ _ _ _ _ _ _ ih =>
      intro t ht
      rcases List.mem_cons.mp ht with rfl | ht
      · exact ⟨gap, rfl⟩
      · obtain ⟨front, hfront⟩ := ih t ht
        exact ⟨gap ++ (stretch ++ front), by simpa using hfront⟩

theorem Tiling.nodup_locs (h : Tiling before since tokens chars) :
    (tokens.map Token.loc).Nodup := by
  induction h with
  | ending => simp
  | @token before _ gap stretch _ _ _ _ _ hne _ htail ih =>
      rw [List.map_cons, List.nodup_cons]
      refine ⟨fun hmem => ?_, ih⟩
      obtain ⟨t, ht, hloc⟩ := List.mem_map.mp hmem
      obtain ⟨front, hfront⟩ := htail.exists_front t ht
      rw [hfront, List.append_assoc (before ++ gap)] at hloc
      exact hne (List.append_eq_nil_iff.mp (eq_nil_of_behind_append hloc)).1

/-- **No two tokens of a text stand at one place.** -/
theorem scan_nodup_locs {text : String} (h : scan text = .ok tokens) :
    (tokens.map Token.loc).Nodup := (tiling_of_scan h).nodup_locs

/--
**A token says that a line has ended where one ends in the gap in front of it, or inside the
token before it.**
-/
theorem scan_newlineBefore {text : String} (h : scan text = .ok tokens) :
    (∀ t ∈ tokens.head?, Leads text.toList t) ∧ tokens.IsChain (Follows text.toList) := by
  have htiling := tiling_of_scan h
  refine ⟨fun t ht => ?_, htiling.follows⟩
  obtain ⟨tail, rfl⟩ := List.head?_eq_some_iff.mp ht
  obtain ⟨gap, rest, htext, hgap, hloc, hnewline⟩ := htiling.exists_gap
  exact ⟨gap, rest, htext, hgap, hloc, hnewline⟩

/-- No line ends between these two tokens, but one ends inside the first. -/
example : scan "'a\\\nb' c" = .ok
    [⟨.string "ab", ⟨1, 1⟩, false⟩, ⟨.identifier "c", ⟨2, 4⟩, true⟩, ⟨.ending, ⟨2, 5⟩, false⟩] := by
  decide +kernel

end Lineage.Token
