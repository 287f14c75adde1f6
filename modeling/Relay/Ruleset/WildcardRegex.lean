import Relay.Ruleset.Reading
import Relay.Text.Glob
import Relay.Text.Regex

/-!
The pattern of an AdGuard wildcard: the pieces that `build_wildcard_regex` puts
together, and the names they match. The pieces of a dot behind several stars may
all be empty, so they match what the pattern without that dot matches.
-/

namespace Relay.Ruleset.Adguard

open Binary Text

/-! ### Pieces -/

inductive Piece where
  | lit (c : Char)
  /-- `.*` -/
  | anyText
  /-- `(?:[^.]+\.)*` -/
  | labels
  /-- `(?:\.)?` -/
  | dot

def Piece.text : Piece → List Char
  | .lit c => escapeRegexRange [c]
  | .anyText => ".*".toList
  | .labels => "(?:[^.]+\\.)*".toList
  | .dot => "(?:\\.)?".toList

/-- What the regex crate reads the piece as. A dot there is any character but
the end of a line. -/
def Piece.regex : Piece → Regex Char
  | .lit c => .one fun d => decide (d = c)
  | .anyText => .many (.one fun d => decide (d ≠ '\n'))
  | .labels => .many (.label '.')
  | .dot => .optional (.one fun d => decide (d = '.'))

def Piece.isPlain : Piece → Bool
  | .lit c => isNameChar c
  | _ => true

def piecesText (pieces : List Piece) : List Char := pieces.flatMap Piece.text

def piecesRegex (pieces : List Piece) : Regex Char := .sequence (pieces.map Piece.regex)

/-- The pieces between `^` and `$`. -/
def anchored (pieces : List Piece) : String := String.ofList ('^' :: piecesText pieces ++ ['$'])

/-- The crate reads a pattern that is put together from pieces as it documents
them: it matches the texts that are, from their start to their end, one text of
every piece. -/
def ReadsPieces (R : RegexCrate) : Prop :=
  ∀ pieces : List Piece, (∀ piece ∈ pieces, piece.isPlain = true) →
    R.compiles (anchored pieces) = .ok () →
    ∀ text : String, R.isMatch (anchored pieces) text = true ↔
      text.toList ∈ (piecesRegex pieces).language

/-- The pieces of a part of a pattern; the flag says that nothing stands
between the last star, or the start, and that part. -/
def wildcardPieces : Bool → List Char → List Piece
  | _, [] => []
  | true, '*' :: '.' :: rest =>
      .labels :: (if rest = [] ∨ rest.head? = some '*' then [] else [.dot]) ++ wildcardPieces false rest
  | _, c :: rest => (if c = '*' then .anyText else .lit c) :: wildcardPieces (decide (c = '*')) rest

/-- A part of a pattern without the dots behind several stars. -/
def undot : Bool → List Char → List Char
  | _, [] => []
  | true, '*' :: '.' :: rest => '*' :: undot false rest
  | _, c :: rest => c :: undot (decide (c = '*')) rest

theorem wildcardPieces_cons {empty : Bool} {c : Char} {rest : List Char}
    (h : ∀ back, empty = true → c = '*' → rest = '.' :: back → False) :
    wildcardPieces empty (c :: rest) =
      (if c = '*' then .anyText else .lit c) :: wildcardPieces (decide (c = '*')) rest := by
  rw [wildcardPieces]
  exact h

theorem undot_cons {empty : Bool} {c : Char} {rest : List Char}
    (h : ∀ back, empty = true → c = '*' → rest = '.' :: back → False) :
    undot empty (c :: rest) = c :: undot (decide (c = '*')) rest := by
  rw [undot]
  exact h

/-! ### The text of the pattern -/

theorem piecesText_cons (piece : Piece) (pieces : List Piece) :
    piecesText (piece :: pieces) = piece.text ++ piecesText pieces := rfl

theorem piecesText_append (front back : List Piece) :
    piecesText (front ++ back) = piecesText front ++ piecesText back := List.flatMap_append

theorem text_lit (c : Char) : (Piece.lit c).text = escapeRegexRange [c] := rfl

theorem text_labels : Piece.labels.text = "(?:[^.]+\\.)*".toList := rfl

theorem text_dot : Piece.dot.text = "(?:\\.)?".toList := rfl

theorem text_anyText : Piece.anyText.text = ".*".toList := rfl

theorem escapeRegexRange_cons (c : Char) (cs : List Char) :
    escapeRegexRange (c :: cs) = escapeRegexRange [c] ++ escapeRegexRange cs := by
  simp [escapeRegexRange]

/-- The pieces of the rest of a pattern are what the loop writes from inside
the part `before`. -/
theorem piecesText_wildcardPieces (before pattern : List Char) {first : List Char}
    {parts : List (List Char)} (h : pattern.splitOn '*' = first :: parts) :
    piecesText (wildcardPieces (decide (before = [])) pattern) =
      escapeRegexRange first ++ wildcardParts (before ++ first) parts := by
  generalize hempty : decide (before = []) = empty
  fun_induction wildcardPieces empty pattern generalizing before first parts with
  | case1 =>
      rw [List.splitOn_nil] at h
      cases h
      rfl
  | case2 rest ih =>
      obtain ⟨head, tail, hsplit⟩ := List.exists_cons_of_ne_nil (List.splitOn_ne_nil '*' rest)
      rw [splitOn_cons_self, splitOn_cons_of_ne (by decide) hsplit] at h
      cases h
      have hrest := ih ['.'] hsplit rfl
      have hhead : head = [] ↔ rest = [] ∨ rest.head? = some '*' := by
        rw [← List.head?_eq_none_iff, head?_of_splitOn hsplit, ← List.head?_eq_none_iff]
        split <;> simp_all
      rw [of_decide_eq_true hempty, List.nil_append, wildcardParts_cons, wildcardPart_dot,
        ← text_labels, ← text_dot, piecesText_append, piecesText_cons, hrest]
      by_cases hnil : head = []
      · rw [if_pos (hhead.mp hnil), if_pos hnil, hnil]
        simp [piecesText, escapeRegexRange]
      · rw [if_neg (mt hhead.mpr hnil), if_neg hnil, piecesText_cons]
        simp [piecesText, escapeRegexRange]
  | case3 empty c rest hother ih =>
      obtain ⟨head, tail, hsplit⟩ := List.exists_cons_of_ne_nil (List.splitOn_ne_nil '*' rest)
      by_cases hc : c = '*'
      · subst hc
        rw [splitOn_cons_self, hsplit] at h
        cases h
        have hpart : before ≠ [] ∨ head.head? ≠ some '.' := by
          by_cases hbefore : before = []
          · right
            rw [head?_of_splitOn hsplit]
            intro hdot
            obtain ⟨back, rfl⟩ : ∃ back, rest = '.' :: back := by
              split at hdot
              · cases hdot
              · exact List.head?_eq_some_iff.mp hdot
            exact hother back (by simpa [hbefore] using hempty.symm) rfl rfl
          · exact Or.inl hbefore
        have hrest := ih [] hsplit rfl
        rw [if_pos rfl, piecesText_cons, List.append_nil, wildcardParts_cons,
          wildcardPart_of_ne hpart, hrest, text_anyText]
        simp [escapeRegexRange]
      · rw [splitOn_cons_of_ne hc hsplit] at h
        cases h
        have hrest := ih (before ++ [c]) hsplit (by simp [hc])
        rw [if_neg hc, piecesText_cons, hrest, escapeRegexRange_cons, text_lit]
        simp

theorem buildWildcardRegex_eq (pattern : String) :
    buildWildcardRegex pattern = anchored (wildcardPieces true pattern.toList) := by
  obtain ⟨first, parts, hsplit⟩ :=
    List.exists_cons_of_ne_nil (List.splitOn_ne_nil '*' pattern.toList)
  have htext := piecesText_wildcardPieces [] pattern.toList hsplit
  rw [List.nil_append, decide_eq_true rfl] at htext
  rw [buildWildcardRegex, hsplit, anchored, htext]
  rfl

theorem wildcardPieces_isPlain {empty : Bool} {pattern : List Char}
    (h : ∀ c ∈ pattern, c = '*' ∨ isNameChar c = true) :
    ∀ piece ∈ wildcardPieces empty pattern, piece.isPlain = true := by
  fun_induction wildcardPieces empty pattern with
  | case1 => simp
  | case2 rest ih =>
      intro piece hpiece
      rcases List.mem_append.mp hpiece with hfront | hrest
      · rcases List.mem_cons.mp hfront with rfl | hdot
        · rfl
        · split at hdot
          · cases hdot
          · rw [List.mem_singleton.mp hdot]
            rfl
      · exact ih (fun c hc => h c (by simp [hc])) piece hrest
  | case3 empty c rest hother ih =>
      intro piece hpiece
      rcases List.mem_cons.mp hpiece with rfl | hrest
      · split
        · rfl
        · rename_i hc
          exact (h c List.mem_cons_self).resolve_left hc
      · exact ih (fun d hd => h d (List.mem_cons_of_mem c hd)) piece hrest

/-! ### What the pieces match -/

theorem mem_piecesRegex_cons {piece : Piece} {pieces : List Piece} {text : List Char} :
    text ∈ (piecesRegex (piece :: pieces)).language ↔
      ∃ front back, text = front ++ back ∧ front ∈ piece.regex.language ∧
        back ∈ (piecesRegex pieces).language := Regex.mem_sequence_cons

theorem mem_lit {c : Char} {text : List Char} :
    text ∈ (Piece.lit c).regex.language ↔ text = [c] := by
  rw [Piece.regex, Regex.mem_one]
  simp

theorem mem_anyText {text : List Char} :
    text ∈ Piece.anyText.regex.language ↔ '\n' ∉ text := by
  rw [Piece.regex, Regex.mem_many_one]
  simp only [decide_eq_true_eq, ne_eq]
  exact ⟨fun h hmem => h _ hmem rfl, fun h c hc hnl => h (hnl ▸ hc)⟩

theorem mem_dot {text : List Char} :
    text ∈ Piece.dot.regex.language ↔ text = [] ∨ text = ['.'] := by
  rw [Piece.regex, Regex.mem_optional, Regex.mem_one]
  simp

theorem mem_labels {text : List Char} :
    text ∈ Piece.labels.regex.language ↔
      ∃ labels, text = terminated '.' labels ∧ ∀ x ∈ labels, x ≠ [] ∧ '.' ∉ x :=
  Regex.mem_many_label

/-- The pieces of a star and a dot behind a star, or at the start: labels, and
for the rest of the part a dot of its own. -/
theorem mem_labels_rest {rest text : List Char} :
    text ∈ (piecesRegex (wildcardPieces true ('*' :: '.' :: rest))).language ↔
      ∃ labels dot back, text = terminated '.' labels ++ (dot ++ back) ∧
        (∀ x ∈ labels, x ≠ [] ∧ '.' ∉ x) ∧
        (dot = [] ∨ dot = ['.'] ∧ ¬ (rest = [] ∨ rest.head? = some '*')) ∧
        back ∈ (piecesRegex (wildcardPieces false rest)).language := by
  rw [wildcardPieces, List.cons_append, mem_piecesRegex_cons]
  by_cases hend : rest = [] ∨ rest.head? = some '*'
  · rw [if_pos hend, List.nil_append]
    constructor
    · rintro ⟨front, back, rfl, hfront, hback⟩
      obtain ⟨labels, rfl, hlabels⟩ := mem_labels.mp hfront
      exact ⟨labels, [], back, rfl, hlabels, Or.inl rfl, hback⟩
    · rintro ⟨labels, dot, back, rfl, hlabels, hdot, hback⟩
      rcases hdot with rfl | ⟨rfl, hmore⟩
      · exact ⟨_, back, rfl, mem_labels.mpr ⟨labels, rfl, hlabels⟩, hback⟩
      · exact absurd hend hmore
  · rw [if_neg hend]
    simp only [List.cons_append, List.nil_append, mem_piecesRegex_cons, mem_dot]
    constructor
    · rintro ⟨front, _, rfl, hfront, dot, back, rfl, hdot, hback⟩
      obtain ⟨labels, rfl, hlabels⟩ := mem_labels.mp hfront
      exact ⟨labels, dot, back, rfl, hlabels, hdot.imp_right fun h => ⟨h, hend⟩, hback⟩
    · rintro ⟨labels, dot, back, rfl, hlabels, hdot, hback⟩
      exact ⟨_, _, rfl, mem_labels.mpr ⟨labels, rfl, hlabels⟩, dot, back, rfl,
        hdot.imp_right And.left, hback⟩

/-- What the pieces match, the pattern without the dots behind several stars
matches. -/
theorem glob_undot_of_mem {empty : Bool} {pattern text : List Char}
    (h : text ∈ (piecesRegex (wildcardPieces empty pattern)).language) :
    Glob '*' (undot empty pattern) text := by
  fun_induction undot empty pattern generalizing text with
  | case1 => exact h
  | case2 rest ih =>
      obtain ⟨labels, dot, back, rfl, _, _, hback⟩ := mem_labels_rest.mp h
      rw [← List.append_assoc]
      exact (ih hback).star_append _
  | case3 empty c rest hother ih =>
      rw [wildcardPieces_cons hother] at h
      obtain ⟨front, back, rfl, hfront, hback⟩ := mem_piecesRegex_cons.mp h
      by_cases hc : c = '*'
      · subst hc
        exact (ih hback).star_append front
      · rw [if_neg hc, mem_lit] at hfront
        exact (glob_cons hc).mpr ⟨back, by rw [hfront, List.singleton_append], ih hback⟩

/-- What the pattern without those dots matches, the pieces match, behind any
text if they follow a star. -/
theorem mem_of_glob_undot {empty : Bool} {pattern text : List Char} (hline : '\n' ∉ text)
    (h : Glob '*' (undot empty pattern) text) :
    ∃ front back, text = front ++ back ∧ (empty = false → front = []) ∧
      back ∈ (piecesRegex (wildcardPieces empty pattern)).language := by
  fun_induction undot empty pattern generalizing text with
  | case1 => exact ⟨[], text, rfl, fun _ => rfl, h⟩
  | case2 rest ih =>
      obtain ⟨front, back, rfl, hrest⟩ := glob_star.mp h
      obtain ⟨more, back, rfl, hnil, hback⟩ := ih (by simp_all) hrest
      rw [hnil rfl]
      exact ⟨front, back, rfl, by simp,
        mem_labels_rest.mpr ⟨[], [], back, rfl, by simp, Or.inl rfl, hback⟩⟩
  | case3 empty c rest hother ih =>
      rw [wildcardPieces_cons hother]
      by_cases hc : c = '*'
      · subst hc
        obtain ⟨front, back, rfl, hrest⟩ := glob_star.mp h
        obtain ⟨more, back, rfl, _, hback⟩ := ih (by simp_all) hrest
        have hany : front ++ more ∈ Piece.anyText.regex.language := mem_anyText.mpr (by simp_all)
        exact ⟨[], _, rfl, fun _ => rfl,
          mem_piecesRegex_cons.mpr ⟨front ++ more, back, by simp, hany, hback⟩⟩
      · obtain ⟨text, rfl, hrest⟩ := (glob_cons hc).mp h
        obtain ⟨more, back, rfl, hnil, hback⟩ := ih (by simp_all) hrest
        rw [hnil (decide_eq_false hc), if_neg hc]
        exact ⟨[], _, rfl, fun _ => rfl,
          mem_piecesRegex_cons.mpr ⟨[c], back, rfl, mem_lit.mpr rfl, hback⟩⟩

/-! ### Dots behind several stars -/

/-- What the pattern matches, it matches without those dots. -/
theorem glob_undot {pattern text : List Char} (empty : Bool) (h : Glob '*' pattern text) :
    Glob '*' (undot empty pattern) text := by
  fun_induction undot empty pattern generalizing text with
  | case1 => exact h
  | case2 rest ih =>
      obtain ⟨front, back, rfl, hdot⟩ := glob_star.mp h
      obtain ⟨back, rfl, hrest⟩ := (glob_cons (by decide)).mp hdot
      rw [List.append_cons]
      exact (ih hrest).star_append _
  | case3 empty c rest hother ih =>
      by_cases hc : c = '*'
      · subst hc
        obtain ⟨front, back, rfl, hrest⟩ := glob_star.mp h
        exact (ih hrest).star_append front
      · obtain ⟨back, rfl, hrest⟩ := (glob_cons hc).mp h
        exact (glob_cons hc).mpr ⟨back, rfl, ih hrest⟩

/-- It has fewer dots, if it is not the same. -/
theorem undot_eq_or_count_lt (empty : Bool) (pattern : List Char) :
    undot empty pattern = pattern ∨ (undot empty pattern).count '.' < pattern.count '.' := by
  fun_induction undot empty pattern with
  | case1 => exact Or.inl rfl
  | case2 rest ih =>
      right
      have hle : (undot false rest).count '.' ≤ rest.count '.' := by
        rcases ih with heq | hlt
        · rw [heq]
        · omega
      simp
      omega
  | case3 empty c rest hother ih =>
      rcases ih with heq | hlt
      · exact Or.inl (by rw [heq])
      · right
        rw [List.count_cons, List.count_cons]
        omega

theorem undot_eq_of_count_le {empty : Bool} {pattern : List Char}
    (h : pattern.count '.' ≤ (undot empty pattern).count '.') : undot empty pattern = pattern :=
  (undot_eq_or_count_lt empty pattern).resolve_right (by omega)

/-- A pattern is the same without those dots if it has none. -/
theorem undot_eq_self_iff (empty : Bool) (pattern : List Char) :
    undot empty pattern = pattern ↔
      ¬ ['*', '*', '.'] <:+: pattern ∧ (empty = true → ¬ ['*', '.'] <+: pattern) := by
  fun_induction undot empty pattern with
  | case1 => simp
  | case2 rest ih =>
      have hne : '*' :: undot false rest ≠ '*' :: '.' :: rest := by
        intro heq
        have hle : (undot false rest).count '.' ≤ rest.count '.' := by
          rcases undot_eq_or_count_lt false rest with hsame | hlt
          · rw [hsame]
          · omega
        have hcount := congrArg (List.count '.') heq
        simp at hcount
        omega
      refine iff_of_false hne ?_
      rintro ⟨_, hprefix⟩
      exact hprefix rfl ⟨rest, rfl⟩
  | case3 empty c rest hother ih =>
      have hstart : empty = true → ¬ ['*', '.'] <+: c :: rest := by
        rintro hempty ⟨back, hback⟩
        obtain ⟨hc, hrest⟩ := List.cons.inj hback
        exact hother back hempty hc.symm hrest.symm
      rw [List.cons.injEq, ih, List.infix_cons_iff, List.cons_prefix_cons]
      simp only [true_and, decide_eq_true_eq]
      constructor
      · rintro ⟨hrest, hnext⟩
        refine ⟨?_, hstart⟩
        rintro (⟨hc, hprefix⟩ | hinfix)
        · exact hnext hc.symm hprefix
        · exact hrest hinfix
      · rintro ⟨hnot, _⟩
        exact ⟨fun hinfix => hnot (Or.inr hinfix), fun hc hprefix => hnot (Or.inl ⟨hc.symm, hprefix⟩)⟩

/-- The first dot behind several stars. -/
theorem undot_stars_dot (k : Nat) (rest : List Char) :
    undot true (List.replicate (k + 1) '*' ++ '.' :: rest) =
      List.replicate (k + 1) '*' ++ undot false rest := by
  induction k with
  | zero => rfl
  | succ k ih =>
      rw [List.replicate_succ, List.cons_append, undot_cons]
      · rw [decide_eq_true rfl, ih]
        rfl
      · simp [List.replicate_succ]

/-- Stars without such a dot. -/
theorem undot_stars (k : Nat) {rest : List Char} (h : rest.head? ≠ some '.') :
    undot true (List.replicate k '*' ++ rest) = List.replicate k '*' ++ undot true rest := by
  induction k with
  | zero => rfl
  | succ k ih =>
      rw [List.replicate_succ, List.cons_append, undot_cons]
      · rw [decide_eq_true rfl, ih]
        rfl
      · rintro back - - hback
        cases k with
        | zero => exact h (by simpa using congrArg List.head? hback)
        | succ k => simp [List.replicate_succ] at hback

/-! ### What the whole pattern matches -/

/-- The pattern that the pieces stand for; a star and a dot at the start only
say where the rest may begin. -/
def effective : List Char → List Char
  | '*' :: '.' :: rest => undot false rest
  | pattern => undot true pattern

/-- The pieces match the rest behind a star and a dot below its name. -/
theorem mem_wildcardPieces_labels {rest text : List Char} (hline : '\n' ∉ text)
    (hfull : FullLabels '.' text) :
    text ∈ (piecesRegex (wildcardPieces true ('*' :: '.' :: rest))).language ↔
      ∃ back, AtBoundary '.' back text ∧ Glob '*' (undot false rest) back := by
  rw [mem_labels_rest]
  constructor
  · rintro ⟨labels, dot, back, rfl, _, hdot, hback⟩
    refine ⟨back, ?_, glob_undot_of_mem hback⟩
    rcases hdot with rfl | ⟨rfl, _⟩
    · rcases terminated_eq_nil_or '.' labels with hnil | ⟨front, hfront⟩
      · rw [hnil]
        exact Or.inl rfl
      · rw [hfront]
        exact Or.inr ⟨front, by simp⟩
    · exact Or.inr ⟨terminated '.' labels, rfl⟩
  · rintro ⟨back, hboundary, hglob⟩
    have hback : back ∈ (piecesRegex (wildcardPieces false rest)).language := by
      have hnl : '\n' ∉ back := fun hmem => hline (hboundary.mem hmem)
      obtain ⟨front, back, rfl, hnil, hback⟩ := mem_of_glob_undot hnl hglob
      rw [hnil rfl]
      exact hback
    rcases hboundary with rfl | ⟨front, rfl⟩
    · exact ⟨[], [], text, rfl, by simp, Or.inl rfl, hback⟩
    · obtain ⟨labels, hlabels, hmem⟩ := (fullLabels_append.mp hfull).1.terminated
      refine ⟨labels, [], back, ?_, hmem, Or.inl rfl, hback⟩
      rw [← hlabels]
      simp

/-- Any other pattern matches from the start. -/
theorem mem_wildcardPieces_other {pattern text : List Char} (hline : '\n' ∉ text)
    (hother : ∀ rest, pattern ≠ '*' :: '.' :: rest) :
    text ∈ (piecesRegex (wildcardPieces true pattern)).language ↔
      Glob '*' (undot true pattern) text := by
  refine ⟨glob_undot_of_mem, ?_⟩
  intro hglob
  cases pattern with
  | nil => exact hglob
  | cons c rest =>
      have hcons : ∀ back, true = true → c = '*' → rest = '.' :: back → False :=
        fun back _ hc hrest => hother back (by rw [hc, hrest])
      rw [wildcardPieces_cons hcons, mem_piecesRegex_cons]
      rw [undot_cons hcons] at hglob
      by_cases hc : c = '*'
      · subst hc
        obtain ⟨front, back, rfl, hrest⟩ := glob_star.mp hglob
        obtain ⟨more, back, rfl, _, hback⟩ := mem_of_glob_undot (by simp_all) hrest
        exact ⟨front ++ more, back, by simp, mem_anyText.mpr (by simp_all), hback⟩
      · obtain ⟨text, rfl, hrest⟩ := (glob_cons hc).mp hglob
        obtain ⟨more, back, rfl, hnil, hback⟩ := mem_of_glob_undot (by simp_all) hrest
        rw [hnil (decide_eq_false hc), if_neg hc]
        exact ⟨[c], back, rfl, mem_lit.mpr rfl, hback⟩

end Relay.Ruleset.Adguard
