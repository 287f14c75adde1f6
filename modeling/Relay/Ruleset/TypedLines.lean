import Relay.Ruleset.Exceptions
import Relay.Ruleset.Mihomo
import Relay.Text.Plain

/-!
The lines of a mihomo list that name their type. What stands behind the first
comma is cut again at the next one, so an option at the end never reaches the
value, and neither does the rest of a value that has a comma of its own.
-/

namespace Relay.Ruleset.Mihomo

open Binary Dns Text

variable {T : NetText} {R : RegexCrate}

/-! ### The value of a line -/

/-- The options at the end of a line, such as `,no-resolve`. -/
def optionsText (options : List String) : String :=
  String.ofList (options.flatMap fun o => ',' :: o.toList)

/-- What `push_classical_or_auto` takes of the text behind the type. -/
def typedValue (rest : String) : String := trim (beforeFirst ',' (trim rest))

/-- White space around a value and around its first comma is of no account. -/
theorem typedValue_eq (rest : String) : typedValue rest = trim (beforeFirst ',' rest) := by
  have hspace : isWhitespace ',' = false := rfl
  by_cases hcomma : ',' ∈ rest.toList
  · obtain ⟨front, back, hrest, hfront⟩ := List.eq_append_cons_of_mem hcomma
    have hsplit : rest = String.ofList front ++ String.ofList (',' :: back) := by
      apply String.toList_injective
      simp [hrest]
    have htrim : trim rest =
        String.ofList (trimStartChars front) ++ String.ofList (',' :: trimEndChars back) := by
      apply String.toList_injective
      simp [trim, hrest, trimChars_append hspace]
    have hstart : ',' ∉ trimStartChars front :=
      fun hmem => hfront (List.dropWhile_subset isWhitespace hmem)
    rw [typedValue, htrim, beforeFirst_append String.toList_ofList (by simpa using hstart), hsplit,
      beforeFirst_append String.toList_ofList (by simpa using hfront), trim, trim,
      String.toList_ofList, String.toList_ofList, trimChars_trimStartChars]
  · have htrim : ',' ∉ (trim rest).toList := by
      rw [trim, String.toList_ofList, mem_trimChars hspace]
      exact hcomma
    rw [typedValue, beforeFirst_eq_self htrim, beforeFirst_eq_self hcomma, trim, trim,
      String.toList_ofList, trimChars_trimChars]

/-- The value is kept, whatever options follow, if and only if it has no
comma. -/
theorem typedValue_append_iff (value : String) (options : List String) :
    typedValue (value ++ optionsText options) = trim value ↔ ',' ∉ value.toList := by
  rw [typedValue_eq]
  constructor
  · intro hkept hmem
    have hcut : ',' ∉ (beforeFirst ',' (value ++ optionsText options)).toList := by
      intro hin
      rw [beforeFirst, String.toList_ofList] at hin
      simpa using List.mem_takeWhile_imp hin
    have hlost : ',' ∉ (trim value).toList := by
      rw [← hkept, trim, String.toList_ofList, mem_trimChars rfl]
      exact hcut
    apply hlost
    rw [trim, String.toList_ofList, mem_trimChars rfl]
    exact hmem
  · intro hcomma
    have hcut : beforeFirst ',' (value ++ optionsText options) = value := by
      cases options with
      | nil =>
          rw [show optionsText [] = "" from rfl, String.append_empty]
          exact beforeFirst_eq_self hcomma
      | cons o options =>
          rw [optionsText, List.flatMap_cons, List.cons_append]
          exact beforeFirst_append String.toList_ofList hcomma
    rw [hcut]

/-! ### A line -/

/-- The two behaviors under which a line says itself what it is. -/
def Behavior.ReadsLines (behavior : Behavior) : Prop :=
  behavior = .classical ∨ behavior = .auto

theorem pushItem_line {behavior : Behavior} (hb : behavior.ReadsLines) {line : String}
    (hne : trim line ≠ "") (out : List RuleEntry) (i : Nat) :
    pushItem T R behavior out (.string line, i) =
      pushClassicalOrAuto T R (trim line) (i + 1) behavior out := by
  have hstr : (YamlValue.string line).asStr = some line := rfl
  rw [pushItem, hstr]
  dsimp only
  rw [if_neg hne]
  rcases hb with rfl | rfl <;> rfl

/-- A line with a type, up to `push_typed_line`. -/
theorem pushItem_typed {behavior : Behavior} (hb : behavior.ReadsLines) {ty : String}
    (hty : ',' ∉ ty.toList) (rest : String) (out : List RuleEntry) (i : Nat) :
    pushItem T R behavior out (.string (ty ++ "," ++ rest), i) =
      pushTypedLine T R (trim ty) (typedValue rest) (i + 1) out := by
  have hline : trim (ty ++ "," ++ rest) =
      String.ofList (trimStartChars ty.toList) ++ "," ++
        String.ofList (trimEndChars rest.toList) := by
    apply String.toList_injective
    rw [trim, String.toList_ofList, String.toList_append, String.toList_append, List.append_assoc,
      show (",").toList = [','] from rfl, List.singleton_append, trimChars_append rfl]
    simp
  have hstart : ',' ∉ (String.ofList (trimStartChars ty.toList)).toList := by
    rw [String.toList_ofList]
    exact fun hmem => hty (List.dropWhile_subset isWhitespace hmem)
  have hne : trim (ty ++ "," ++ rest) ≠ "" := by
    rw [hline]
    simp
  have htype : trim (String.ofList (trimStartChars ty.toList)) = trim ty := by
    rw [trim, trim, String.toList_ofList, trimChars_trimStartChars]
  have hvalue : trim (String.ofList (trimEndChars rest.toList)) = trim rest := by
    rw [trim, trim, String.toList_ofList, trimChars_trimEndChars]
  rw [pushItem_line hb hne, hline, pushClassicalOrAuto,
    splitOnce_append (show (",").toList = [','] from rfl) hstart]
  dsimp only
  rw [htype, hvalue]
  rfl

/-- The type of a pattern, in the middle of a line. -/
theorem pushTypedLine_regex (value : String) (lineNo : Nat) (out : List RuleEntry) :
    pushTypedLine T R "DOMAIN-REGEX" value lineNo out =
      .ok (if (R.compiles value).isOk then out ++ [domainEntry value .domainRegex] else out) := rfl

/-- A pattern that compiles makes the one entry of its line if and only if it
has no comma; and the value of any line, with any options behind it, is handed
on whole if and only if it has none. -/
theorem typed_line_kept_iff (T : NetText) (R : RegexCrate) {behavior : Behavior}
    (hb : behavior.ReadsLines) :
    (∀ (p : String) (out : List RuleEntry) (i : Nat), R.compiles p = .ok () → trim p = p →
      (pushItem T R behavior out (.string ("DOMAIN-REGEX," ++ p), i) =
        .ok (out ++ [domainEntry p .domainRegex]) ↔ ',' ∉ p.toList)) ∧
    ∀ (ty value : String) (options : List String) (out : List RuleEntry) (i : Nat),
      ',' ∉ ty.toList →
      pushItem T R behavior out (.string (ty ++ "," ++ value ++ optionsText options), i) =
          pushTypedLine T R (trim ty) (typedValue (value ++ optionsText options)) (i + 1) out ∧
        (typedValue (value ++ optionsText options) = trim value ↔ ',' ∉ value.toList) := by
  constructor
  · intro p out i hcompiles htrim
    have hvalue : typedValue p = p ↔ ',' ∉ p.toList := by
      have hnone := typedValue_append_iff p []
      rw [show optionsText [] = "" from rfl, String.append_empty, htrim] at hnone
      exact hnone
    have hitem := pushItem_typed (T := T) (R := R) hb
      (show ',' ∉ ("DOMAIN-REGEX").toList by decide) p out i
    have hty : trim "DOMAIN-REGEX" = "DOMAIN-REGEX" := rfl
    rw [show "DOMAIN-REGEX," ++ p = "DOMAIN-REGEX" ++ "," ++ p from rfl, hitem, hty,
      pushTypedLine_regex, ← hvalue]
    constructor
    · intro hentry
      have hlist := Except.ok.inj hentry
      split at hlist
      · simpa [domainEntry] using hlist
      · simp at hlist
    · intro hkept
      rw [hkept, hcompiles]
      rfl
  · intro ty value options out i hty
    refine ⟨?_, typedValue_append_iff value options⟩
    rw [show ty ++ "," ++ value ++ optionsText options =
      ty ++ "," ++ (value ++ optionsText options) from String.append_assoc]
    exact pushItem_typed hb hty (value ++ optionsText options) out i

/-- A pattern of letters, and a network with its option. -/
theorem typed_line_kept_ads :
    pushItem Adguard.zeroAddressText literalRegex .classical []
        (.string ("DOMAIN-REGEX," ++ "ads"), 0) = .ok [domainEntry "ads" .domainRegex] ∧
      typedValue ("10.0.0.0/8" ++ optionsText ["no-resolve"]) = trim "10.0.0.0/8" := by
  have hlines := typed_line_kept_iff Adguard.zeroAddressText literalRegex
    (show Behavior.classical.ReadsLines from Or.inl rfl)
  have hregex := hlines.1 "ads" [] 0 (by decide) (by decide)
  have hcidr := hlines.2 "IP-CIDR" "10.0.0.0/8" ["no-resolve"] [] 0 (by decide)
  exact ⟨hregex.mpr (by decide), hcidr.2.mpr (by decide)⟩

/-- Of the pattern `ads,x` only `ads` is left. -/
theorem typed_line_cuts_pattern :
    ¬ ∀ (T : NetText) (R : RegexCrate) (p : String), R.compiles p = .ok () → trim p = p →
      pushItem T R .classical [] (.string ("DOMAIN-REGEX," ++ p), 0) =
        .ok [domainEntry p .domainRegex] := by
  intro h
  have hentry := h Adguard.zeroAddressText literalRegex "ads,x" (by decide) (by decide)
  have hcut : pushItem Adguard.zeroAddressText literalRegex .classical []
      (.string ("DOMAIN-REGEX," ++ "ads,x"), 0) = .ok [domainEntry "ads" .domainRegex] := rfl
  rw [hcut] at hentry
  have hdomain := congrArg (List.map RuleEntry.domain) (Except.ok.inj hentry)
  simp [domainEntry] at hdomain

end Relay.Ruleset.Mihomo
