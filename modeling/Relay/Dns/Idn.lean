import Relay.Dns.Selection
import Relay.Text.Case

/-!
Internationalised names. The router matches its rules against a name as
`hickory_proto` displays it, with `xn--` labels in Unicode, while the rules and
`relay lookup` have the same labels in ASCII. The two normal forms agree on the
names without such labels, and on no other.
-/

namespace Relay.Dns

open Binary Text Upstream Ruleset

variable {F : FstCrate} {R : RegexCrate} {H : HickoryCrate}

/-! ### How a name is written -/

/-- The text of one label: its bytes as escaped ASCII, and what the IDNA crate
makes of a label that starts with `xn--`, if it can read it. -/
structure LabelText where
  toAscii : Bytes → String
  toUnicode : Bytes → Option String

/-- `label.starts_with(b"xn--")`. -/
def isIdna (label : Bytes) : Bool := [0x78, 0x6e, 0x2d, 0x2d].isPrefixOf label

/-- A label as `Display` writes it. -/
def LabelText.display (L : LabelText) (label : Bytes) : String :=
  if isIdna label then (L.toUnicode label).getD (L.toAscii label) else L.toAscii label

/-- The labels, with a dot between them and one behind a name that ends in the
root. -/
def writeLabels (text : Bytes → String) (name : Name) : String :=
  String.ofList (List.intercalate ['.'] (name.labels.map fun label => (text label).toList)) ++
    (if name.isFqdn || name.labels.isEmpty then "." else "")

/-- The name as rules have it. -/
def LabelText.ascii (L : LabelText) (name : Name) : String := writeLabels L.toAscii name

/-- `Display` writes `xn--` labels in Unicode and other labels in ASCII, and a
label that is written in Unicode has a character that is not in ASCII. -/
structure DisplaysUnicode (H : HickoryCrate) (L : LabelText) : Prop where
  display : ∀ name, H.display name = writeLabels L.display name
  ascii : ∀ label, ∀ c ∈ (L.toAscii label).toList, c.toNat < 128
  unicode : ∀ label text, L.toUnicode label = some text → ∃ c ∈ text.toList, 128 ≤ c.toNat

theorem mem_writeLabels {text : Bytes → String} {name : Name} {label : Bytes} {c : Char}
    (hlabel : label ∈ name.labels) (hc : c ∈ (text label).toList) :
    c ∈ (writeLabels text name).toList := by
  have hjoin : ∀ parts : List (List Char), (∃ part ∈ parts, c ∈ part) →
      c ∈ List.intercalate ['.'] parts := by
    intro parts
    induction parts with
    | nil => simp
    | cons part parts ih =>
        rintro ⟨found, hfound, hin⟩
        cases parts with
        | nil =>
            rw [List.intercalate_singleton]
            rwa [List.mem_singleton.mp hfound] at hin
        | cons next parts =>
            rw [List.intercalate_cons_cons, List.mem_append, List.mem_append]
            rcases List.mem_cons.mp hfound with rfl | hrest
            · exact Or.inl (Or.inl hin)
            · exact Or.inr (ih ⟨found, hrest, hin⟩)
  rw [writeLabels, String.toList_append, String.toList_ofList]
  apply List.mem_append_left
  exact hjoin _ ⟨_, List.mem_map_of_mem hlabel, hc⟩

theorem forall_mem_writeLabels {text : Bytes → String} {name : Name} {p : Char → Prop}
    (hdot : p '.') (h : ∀ label, ∀ c ∈ (text label).toList, p c) :
    ∀ c ∈ (writeLabels text name).toList, p c := by
  have hjoin : ∀ labels : List Bytes,
      ∀ c ∈ List.intercalate ['.'] (labels.map fun label => (text label).toList), p c := by
    intro labels
    induction labels with
    | nil => simp
    | cons label labels ih =>
        cases labels with
        | nil => simpa using h label
        | cons next labels =>
            intro c hc
            rw [List.map_cons, List.map_cons, List.intercalate_cons_cons, List.mem_append,
              List.mem_append] at hc
            rcases hc with (hc | hc) | hc
            · exact h label c hc
            · rwa [List.mem_singleton.mp hc]
            · exact ih c hc
  intro c hc
  rw [writeLabels, String.toList_append, String.toList_ofList] at hc
  rcases List.mem_append.mp hc with hc | hc
  · exact hjoin name.labels c hc
  · split at hc
    · rwa [List.mem_singleton.mp hc]
    · cases hc

/-! ### The normal form -/

/-- Normalising keeps what is not in ASCII. -/
theorem mem_normalizeDomain {s : String} {c : Char} (hc : c ∈ s.toList) (hwide : 128 ≤ c.toNat) :
    c ∈ (normalizeDomain s).toList := by
  obtain ⟨dots, hs, hdots⟩ := toList_eq_trimEndDots_append s
  have htrim : c ∈ (trimEndDots s).toList := by
    rw [hs] at hc
    rcases List.mem_append.mp hc with hin | hdot
    · exact hin
    · rw [hdots c hdot] at hwide
      exact absurd hwide (by decide)
  have hself : c.toLower = c := by
    apply toLower_of_not_isUpper
    rw [← Bool.not_eq_true, isUpper_iff]
    omega
  rw [normalizeDomain, toList_toAsciiLowercase, ← hself]
  exact List.mem_map_of_mem htrim

/-- Normalising ASCII gives ASCII. -/
theorem normalizeDomain_ascii {s : String} (h : ∀ c ∈ s.toList, c.toNat < 128) :
    ∀ c ∈ (normalizeDomain s).toList, c.toNat < 128 := by
  obtain ⟨dots, hs, _⟩ := toList_eq_trimEndDots_append s
  intro c hc
  rw [normalizeDomain, toList_toAsciiLowercase] at hc
  obtain ⟨d, hd, rfl⟩ := List.mem_map.mp hc
  have hlt : d.toNat < 128 := by
    apply h d
    rw [hs]
    exact List.mem_append_left dots hd
  cases hupper : d.isUpper with
  | false => rwa [toLower_of_not_isUpper hupper]
  | true =>
      obtain ⟨_, hhi, hlower⟩ := toNat_toLower_of_isUpper hupper
      omega

/-- The two forms of a name have one normal form if and only if no label is
written in Unicode. -/
theorem normalizeDomain_display_iff {L : LabelText} (hH : DisplaysUnicode H L) (name : Name) :
    normalizeDomain (H.display name) = normalizeDomain (L.ascii name) ↔
      ∀ label ∈ name.labels, isIdna label = true → L.toUnicode label = none := by
  constructor
  · intro hsame label hlabel hidna
    cases htext : L.toUnicode label with
    | none => rfl
    | some text =>
        exfalso
        obtain ⟨c, hc, hwide⟩ := hH.unicode label text htext
        have hdisplay : c ∈ (L.display label).toList := by
          rw [LabelText.display, if_pos hidna, htext]
          exact hc
        have hnormal : c ∈ (normalizeDomain (H.display name)).toList := by
          apply mem_normalizeDomain _ hwide
          rw [hH.display]
          exact mem_writeLabels hlabel hdisplay
        rw [hsame] at hnormal
        have hascii : ∀ d ∈ (L.ascii name).toList, d.toNat < 128 :=
          forall_mem_writeLabels (by decide) hH.ascii
        have hlt := normalizeDomain_ascii hascii c hnormal
        omega
  · intro hnone
    have hlabels : (name.labels.map fun label => (L.display label).toList) =
        name.labels.map fun label => (L.toAscii label).toList := by
      apply List.map_congr_left
      intro label hlabel
      rw [LabelText.display]
      cases hidna : isIdna label with
      | false => rfl
      | true =>
          rw [if_pos rfl, hnone label hlabel hidna]
          rfl
    rw [hH.display, LabelText.ascii, writeLabels, writeLabels, hlabels]

/-! ### The rule that is selected -/

/-- Whatever the rules and the groups are, the router selects the first rule
whose ruleset `relay lookup` finds the name's ASCII form in. -/
def RoutesAsLookup (F : FstCrate) (R : RegexCrate) (H : HickoryCrate) (L : LabelText)
    (name : Name) : Prop :=
  ∀ (upstreams : StringMap UpstreamGroup) (rules : List (LoadedRule F R)),
    selectRule upstreams (normalizeDomain (H.display name)) rules =
      .ok ((rules.find? fun rule =>
        rule.ruleset.accepts (L.ascii name) && (upstreams.lookup rule.upstream).isSome).bind
          fun rule => (upstreams.lookup rule.upstream).map fun group => (rule.upstream, group))

/-- The default group, without servers. -/
def oneGroup : StringMap UpstreamGroup :=
  (∅ : StringMap UpstreamGroup).insert "default" { servers := [], strategy := .roundRobin }

theorem containsText_antisymm {a b : String} (hab : containsText a b = true)
    (hba : containsText b a = true) : a = b := by
  have hin : octets b <:+: octets a := of_decide_eq_true hab
  have hout : octets a <:+: octets b := of_decide_eq_true hba
  have hlength := Nat.le_antisymm hout.length_le hin.length_le
  exact octets_injective (hout.eq_of_length hlength)

/-- The router agrees with the lookup on a name if and only if the two forms of
the name have one normal form: a ruleset of one keyword tells others apart. -/
theorem routesAsLookup_iff {L : LabelText} {name : Name} :
    RoutesAsLookup F R H L name ↔
      normalizeDomain (H.display name) = normalizeDomain (L.ascii name) := by
  constructor
  · intro hroutes
    have haccepts : ∀ drs : DrsFile F R,
        drs.accepts (H.display name) = drs.accepts (L.ascii name) := by
      intro drs
      have hone := hroutes oneGroup [⟨drs, "default"⟩]
      rw [selectRule_eq, Except.ok.injEq] at hone
      have hfind : ∀ text, (([(⟨drs, "default"⟩ : LoadedRule F R)].find? fun rule =>
          rule.ruleset.accepts text && (oneGroup.lookup rule.upstream).isSome).bind fun rule =>
            (oneGroup.lookup rule.upstream).map fun group => (rule.upstream, group)).isSome =
          drs.accepts text := by
        intro text
        rw [List.find?_cons]
        dsimp only
        rw [oneGroup, AList.lookup_insert, Option.isSome_some, Bool.and_true]
        cases drs.accepts text with
        | true =>
            dsimp only
            rw [Option.bind_some, AList.lookup_insert]
            rfl
        | false => rfl
      rw [← hfind, hone, hfind]
    have htext : ∀ keyword, containsText (normalizeDomain (H.display name)) keyword =
        containsText (normalizeDomain (L.ascii name)) keyword := by
      intro keyword
      have hkeyword := haccepts (keywordRuleset F R keyword)
      rwa [keywordRuleset_accepts, keywordRuleset_accepts] at hkeyword
    have hself : ∀ s, containsText s s = true := fun s => decide_eq_true List.infix_rfl
    apply containsText_antisymm
    · rw [htext]
      exact hself _
    · rw [← htext]
      exact hself _
  · intro hsame upstreams rules
    rw [hsame]
    exact selectRule_eq upstreams (L.ascii name) rules

/-- The router and `relay lookup` agree on a name, for all rules, if and only
if none of its labels is written in Unicode. -/
theorem routes_as_lookup_iff (F : FstCrate) (R : RegexCrate) {L : LabelText}
    (hH : DisplaysUnicode H L) (name : Name) :
    RoutesAsLookup F R H L name ↔
      ∀ label ∈ name.labels, isIdna label = true → L.toUnicode label = none :=
  routesAsLookup_iff.trans (normalizeDomain_display_iff hH name)

/-! ### A name with an umlaut -/

/-- The label `xn--bcher-kva`. -/
def booksLabel : Bytes :=
  [0x78, 0x6e, 0x2d, 0x2d, 0x62, 0x63, 0x68, 0x65, 0x72, 0x2d, 0x6b, 0x76, 0x61]

/-- Letters, digits, `-` and `_` as they are, and other bytes in octal. -/
def escapeByte (n : Nat) : List Char :=
  let c := Char.ofNat n
  if c.isAlphanum || c == '-' || c == '_' then [c]
  else '\\' :: [n / 64, n / 8 % 8, n % 8].map fun digit => Char.ofNat (48 + digit)

def booksText : LabelText where
  toAscii label := String.ofList (label.flatMap fun b => escapeByte b.toNat)
  toUnicode label := if label = booksLabel then some "bücher" else none

def booksCrate : HickoryCrate where
  display := writeLabels booksText.display
  debugType _ := ""
  fromStr _ := none
  toVec _ := none
  fromBytes _ := none

theorem booksCrate_displaysUnicode : DisplaysUnicode booksCrate booksText where
  display _ := rfl
  ascii := by
    intro label c hc
    have hbyte : ∀ n < 256, (escapeByte n).all (fun c => decide (c.toNat < 128)) = true := by
      decide +kernel
    rw [booksText, String.toList_ofList, List.mem_flatMap] at hc
    obtain ⟨b, _, hb⟩ := hc
    exact of_decide_eq_true (List.all_eq_true.mp (hbyte b.toNat b.toNat_lt) c hb)
  unicode := by
    intro label text htext
    rw [booksText] at htext
    dsimp only at htext
    split at htext
    · cases htext
      exact ⟨'ü', by decide, by decide⟩
    · cases htext

theorem routes_as_lookup_ads :
    RoutesAsLookup listFst literalRegex booksCrate booksText
      { labels := [[0x41, 0x64, 0x73], [0x63, 0x6f, 0x6d]] } :=
  (routes_as_lookup_iff listFst literalRegex booksCrate_displaysUnicode _).mpr (by decide)

/-- A rule for `xn--bcher-kva` is found by the lookup and not by the router. -/
theorem umlaut_routes_past_rule :
    DisplaysUnicode booksCrate booksText ∧
      ¬ RoutesAsLookup listFst literalRegex booksCrate booksText { labels := [booksLabel] } := by
  refine ⟨booksCrate_displaysUnicode, ?_⟩
  rw [routesAsLookup_iff, normalizeDomain_display_iff booksCrate_displaysUnicode]
  intro hnone
  have hbooks := hnone booksLabel (List.mem_singleton_self _) rfl
  cases hbooks

end Relay.Dns
