import Relay.Dns.Upstream.Url
import Relay.Text.Plain

/-!
Which texts `parse_host_port` takes for a host and a port, which of them it
reads as they are meant, and which it splits in the wrong place.
-/

namespace Relay.Dns.Upstream

open Text

/-- What the standard library reads as an address: an IPv4 address has digits
and dots only, an IPv6 address hexadecimal digits, dots and at least one colon. -/
structure IpLiterals (T : NetText) : Prop where
  v4 : ∀ text addr, T.ipAddr text = some (.v4 addr) →
    text ≠ "" ∧ ∀ c ∈ text.toList, c.isDigit = true ∨ c = '.'
  v6 : ∀ text addr, T.ipAddr text = some (.v6 addr) →
    ':' ∈ text.toList ∧ ∀ c ∈ text.toList, (hexDigitValue c).isSome = true ∨ c = '.' ∨ c = ':'

/-- `host.parse::<Ipv4Addr>()`. -/
def isIpv4 (T : NetText) (host : String) : Bool :=
  match T.ipAddr host with
  | some (.v4 _) => true
  | _ => false

/-- A port as it is written: the decimal digits of the number. -/
def PortText (text : String) (port : UInt16) : Prop := digitsValue text.toList = some port.toNat

/-- An IPv6 address, or a text without the characters that set a host off. -/
def HostText (T : NetText) (host : String) : Prop :=
  isIpv6 T host = true ∨ ∀ c ∈ host.toList, c ≠ ':' ∧ c ≠ '[' ∧ c ≠ ']'

/-- The host and the port are what the text says. -/
structure WellRead (T : NetText) (text : String) (defaultPort : UInt16) (host : String)
    (port : UInt16) : Prop where
  nonempty : host ≠ ""
  hostText : HostText T host
  written : (text = host ∧ port = defaultPort) ∨
    (∃ digits, PortText digits port ∧ text = host ++ ":" ++ digits) ∨
    (text = "[" ++ host ++ "]" ∧ port = defaultPort) ∨
    ∃ digits, PortText digits port ∧ text = "[" ++ host ++ "]" ++ ":" ++ digits

/-- A domain name has no separator of a URL in it. -/
def IsDomain (host : String) : Prop :=
  host ≠ "" ∧ ∀ c ∈ host.toList, c ≠ ':' ∧ c ≠ '/' ∧ c ≠ '[' ∧ c ≠ ']'

/-- A text gives the host, with the default port alone and with any port
behind a colon. -/
structure GivesHost (T : NetText) (defaultPort : UInt16) (text host : String) : Prop where
  alone : parseHostPort T text defaultPort = .ok (host, defaultPort)
  withPort : ∀ digits port, PortText digits port →
    parseHostPort T (text ++ ":" ++ digits) defaultPort = .ok (host, port)

/-- The texts that are read as something else: an IPv6 address without
brackets, which loses its last group to the port; a bracket in another place;
and a sign before the port. -/
inductive Misread (T : NetText) : String → Prop where
  | colons {host digits : String} {port : UInt16} : host ≠ "" → host.toList.head? ≠ some '[' →
      ¬ HostText T host → PortText digits port → Misread T (host ++ ":" ++ digits)
  | bracket {host : String} : host ≠ "" → host.toList.head? ≠ some '[' → ':' ∉ host.toList →
      ¬ HostText T host → Misread T host
  | sign {host digits : String} {port : UInt16} : host ≠ "" → host.toList.head? ≠ some '[' →
      PortText digits port → Misread T (host ++ ":" ++ ("+" ++ digits))
  | bracketedSign {host digits : String} {port : UInt16} : isIpv6 T host = true →
      PortText digits port → Misread T ("[" ++ host ++ "]" ++ ":" ++ ("+" ++ digits))

/-! ### What is accepted -/

variable {T : NetText}

/-- The port after a colon, as it is accepted. -/
inductive AcceptsPort : String → UInt16 → Prop where
  | digits {text : String} {port : UInt16} : PortText text port → AcceptsPort text port
  | sign {text : String} {port : UInt16} : PortText text port → AcceptsPort ("+" ++ text) port

/-- The texts before a path that give a host and a port. -/
inductive Accepts (T : NetText) (defaultPort : UInt16) : String → String → UInt16 → Prop where
  | bracketed {host : String} : isIpv6 T host = true →
      Accepts T defaultPort ("[" ++ host ++ "]") host defaultPort
  | bracketedPort {host text : String} {port : UInt16} : isIpv6 T host = true →
      AcceptsPort text port → Accepts T defaultPort ("[" ++ host ++ "]" ++ ":" ++ text) host port
  | plain {host : String} : host ≠ "" → host.toList.head? ≠ some '[' → ':' ∉ host.toList →
      Accepts T defaultPort host host defaultPort
  | plainPort {host text : String} {port : UInt16} : host ≠ "" → host.toList.head? ≠ some '[' →
      AcceptsPort text port → Accepts T defaultPort (host ++ ":" ++ text) host port

theorem digitsValue_eq_some {cs : List Char} {n : Nat} (h : digitsValue cs = some n) :
    cs ≠ [] ∧ ∀ c ∈ cs, c.isDigit = true := by
  unfold digitsValue at h
  split at h
  · rename_i hdigits
    exact ⟨hdigits.1, List.all_eq_true.mp hdigits.2⟩
  · cases h

theorem not_digit {c : Char} (h : c.isDigit = false) {cs : List Char}
    (hdigits : ∀ d ∈ cs, d.isDigit = true) : c ∉ cs := by
  intro hmem
  rw [hdigits c hmem] at h
  cases h

theorem number_eq_port_iff {cs : List Char} {port : UInt16} :
    ((digitsValue cs).bind fun n => if n ≤ 65535 then some n else none).map UInt16.ofNat = some port ↔
      digitsValue cs = some port.toNat := by
  cases digitsValue cs with
  | none => simp
  | some n =>
      have hport := port.toNat_lt
      by_cases hle : n ≤ 65535
      · have hlt : n < 2 ^ 16 := by omega
        simp only [Option.bind_some, if_pos hle, Option.map_some, Option.some.injEq]
        constructor
        · rintro rfl
          exact (UInt16.toNat_ofNat_of_lt' hlt).symm
        · rintro rfl
          exact UInt16.ofNat_toNat
      · simp only [Option.bind_some, if_neg hle, Option.map_none, Option.some.injEq]
        constructor
        · intro h
          cases h
        · intro h
          omega

theorem parsePort_sign {text digits : String} {port : UInt16} (htext : text = "+" ++ digits) :
    parsePort text = some port ↔ PortText digits port := by
  have hchars : text.toList = '+' :: digits.toList := by simp [htext]
  unfold parsePort parseUnsigned
  simp only [hchars]
  exact number_eq_port_iff

theorem parsePort_unsigned {text : String} {port : UInt16} (h : text.toList.head? ≠ some '+') :
    parsePort text = some port ↔ PortText text port := by
  unfold parsePort parseUnsigned
  dsimp only
  split
  · rename_i rest htext
    simp [htext] at h
  · exact number_eq_port_iff

theorem parsePort_eq_some_iff {text : String} {port : UInt16} :
    parsePort text = some port ↔ AcceptsPort text port := by
  constructor
  · intro h
    rcases eq_or_ne text.toList.head? (some '+') with hhead | hhead
    · obtain ⟨rest, hrest⟩ := List.head?_eq_some_iff.mp hhead
      have htext : text = "+" ++ String.ofList rest := by
        apply String.toList_injective
        simp [hrest]
      rw [htext]
      exact AcceptsPort.sign ((parsePort_sign htext).mp h)
    · exact AcceptsPort.digits ((parsePort_unsigned hhead).mp h)
  · intro h
    cases h with
    | digits hdigits =>
        apply (parsePort_unsigned _).mpr hdigits
        intro hhead
        have hnone : '+' ∉ text.toList := not_digit (by decide) (digitsValue_eq_some hdigits).2
        exact hnone (List.mem_of_mem_head? hhead)
    | sign hdigits => exact (parsePort_sign rfl).mpr hdigits

/-- A port has no colon. -/
theorem AcceptsPort.no_colon {text : String} {port : UInt16} (h : AcceptsPort text port) :
    ':' ∉ text.toList := by
  cases h with
  | digits hdigits => exact not_digit (by decide) (digitsValue_eq_some hdigits).2
  | sign hdigits =>
      have hnone : ':' ∉ _ := not_digit (by decide) (digitsValue_eq_some hdigits).2
      simpa using hnone

theorem isIpv6_iff {host : String} : isIpv6 T host = true ↔ ∃ addr, T.ipAddr host = some (.v6 addr) := by
  unfold isIpv6
  split
  · rename_i addr haddr
    simp [haddr]
  · rename_i hnone
    simpa using fun addr haddr => hnone addr haddr

theorem IpLiterals.no_bracket (hT : IpLiterals T) {host : String} (h : isIpv6 T host = true) {c : Char}
    (hc : hexDigitValue c = none) (hdot : c ≠ '.') (hcolon : c ≠ ':') : c ∉ host.toList := by
  obtain ⟨addr, haddr⟩ := isIpv6_iff.mp h
  intro hmem
  rcases (hT.v6 host addr haddr).2 c hmem with hhex | hother | hother
  · rw [hc] at hhex
    cases hhex
  · exact hdot hother
  · exact hcolon hother

theorem bracketedPort_eq_ok_iff {s after : String} {defaultPort port : UInt16} :
    bracketedPort s after defaultPort = .ok port ↔
      (after = "" ∧ port = defaultPort) ∨ ∃ text, after = ":" ++ text ∧ AcceptsPort text port := by
  unfold bracketedPort
  split
  · rename_i hafter
    have hempty : after = "" := String.toList_injective (by simpa using hafter)
    subst hempty
    constructor
    · intro h
      exact Or.inl ⟨rfl, (Except.ok.inj h).symm⟩
    · rintro (⟨-, rfl⟩ | ⟨text, htext, -⟩)
      · rfl
      · have hchars := congrArg String.toList htext
        simp at hchars
  · rename_i cs hafter
    have htext : after = ":" ++ String.ofList cs := by
      apply String.toList_injective
      simp [hafter]
    subst htext
    simp only [← parsePort_eq_some_iff]
    cases hport : parsePort (String.ofList cs) <;> simp [hport]
  · rename_i hempty hcolon
    constructor
    · intro h
      cases h
    · rintro (⟨rfl, -⟩ | ⟨text, rfl, -⟩)
      · exact absurd rfl hempty
      · exact absurd (by simp) (hcolon text.toList)

theorem parseHostPort_bracketed (hT : IpLiterals T) {s host : String} (after : String)
    {defaultPort port : UInt16}
    (htext : beforeFirst '/' s = "[" ++ host ++ "]" ++ after) (hhost : isIpv6 T host = true)
    (hport : bracketedPort s after defaultPort = .ok port) :
    parseHostPort T s defaultPort = .ok (host, port) := by
  have hbracket : ']' ∉ host.toList :=
    hT.no_bracket hhost (by decide) (by decide) (by decide)
  have hchars : (beforeFirst '/' s).toList = '[' :: (host.toList ++ ']' :: after.toList) := by
    simp [htext]
  unfold parseHostPort
  simp only [hchars, splitOnceChars_append hbracket, String.ofList_toList, hport]
  exact if_pos hhost

/-- A text without brackets is split at its last colon. -/
theorem parseHostPort_plain {s text : String} {defaultPort : UInt16} (htext : beforeFirst '/' s = text)
    (hhead : text.toList.head? ≠ some '[') :
    parseHostPort T s defaultPort =
      match splitLast ':' text with
      | none => if text = "" then .error (.emptyHost s) else .ok (text, defaultPort)
      | some (host, port) =>
          match parsePort port with
          | some port => if host = "" then .error (.emptyHost s) else .ok (host, port)
          | none => .error (.invalidPort s) := by
  unfold parseHostPort
  simp only [htext]
  split
  · rename_i rest hrest
    simp [hrest] at hhead
  · cases splitLast ':' text with
    | none => rfl
    | some parts =>
        dsimp only
        cases parsePort parts.2 <;> rfl

theorem head?_append_of_ne {front : String} (h : front ≠ "") (back : String) :
    (front ++ back).toList.head? = front.toList.head? := by
  rw [String.toList_append]
  exact List.head?_append_of_ne_nil _ (by simpa using h)

theorem Accepts.parses (hT : IpLiterals T) {s text host : String} {defaultPort port : UInt16}
    (h : Accepts T defaultPort text host port) (htext : beforeFirst '/' s = text) :
    parseHostPort T s defaultPort = .ok (host, port) := by
  cases h with
  | bracketed hhost =>
      apply parseHostPort_bracketed hT "" (by simpa using htext) hhost
      exact bracketedPort_eq_ok_iff.mpr (Or.inl ⟨rfl, rfl⟩)
  | @bracketedPort _ digits _ hhost hport =>
      apply parseHostPort_bracketed hT (":" ++ digits) _ hhost
      · exact bracketedPort_eq_ok_iff.mpr (Or.inr ⟨digits, rfl, hport⟩)
      · rw [htext, String.append_assoc]
  | plain hne hhead hcolon =>
      rw [parseHostPort_plain htext hhead, splitLast_eq_none_iff.mpr hcolon]
      exact if_neg hne
  | @plainPort _ digits _ hne hhead hport =>
      have hhead' : (host ++ ":" ++ digits).toList.head? ≠ some '[' := by
        rwa [String.append_assoc, head?_append_of_ne hne]
      rw [parseHostPort_plain htext hhead', splitLast_append rfl hport.no_colon]
      simp only [parsePort_eq_some_iff.mpr hport]
      exact if_neg hne

theorem accepts_of_bracketed {s text host : String} {defaultPort port : UInt16}
    (htext : beforeFirst '/' s = text) (hhead : text.toList.head? = some '[')
    (h : parseHostPort T s defaultPort = .ok (host, port)) :
    Accepts T defaultPort text host port := by
  obtain ⟨rest, hrest⟩ := List.head?_eq_some_iff.mp hhead
  unfold parseHostPort at h
  simp only [htext, hrest] at h
  cases hsplit : splitOnceChars [']'] rest with
  | none =>
      rw [hsplit] at h
      cases h
  | some parts =>
      obtain ⟨front, after⟩ := parts
      have hchars : text = "[" ++ String.ofList front ++ "]" ++ String.ofList after := by
        apply String.toList_injective
        simp [hrest, splitOnceChars_eq_some hsplit]
      simp only [hsplit] at h
      obtain ⟨p, hport, h⟩ := Binary.run_bind_eq_ok.mp h
      split at h
      · rename_i hhost
        cases h
        rcases bracketedPort_eq_ok_iff.mp hport with ⟨hafter, rfl⟩ | ⟨digits, hafter, hdigits⟩
        · rw [hchars, hafter, String.append_empty]
          exact Accepts.bracketed hhost
        · rw [hchars, hafter, ← String.append_assoc]
          exact Accepts.bracketedPort hhost hdigits
      · cases h

theorem accepts_of_plain {s text host : String} {defaultPort port : UInt16}
    (htext : beforeFirst '/' s = text) (hhead : text.toList.head? ≠ some '[')
    (h : parseHostPort T s defaultPort = .ok (host, port)) :
    Accepts T defaultPort text host port := by
  rw [parseHostPort_plain htext hhead] at h
  split at h
  · rename_i hsplit
    split at h
    · cases h
    · rename_i hne
      cases h
      exact Accepts.plain hne hhead (splitLast_eq_none_iff.mp hsplit)
  · rename_i front digits hsplit
    split at h
    · rename_i p hport
      split at h
      · cases h
      · rename_i hne
        cases h
        obtain ⟨hchars, -⟩ := splitLast_eq_some hsplit
        have htext' : text = host ++ ":" ++ digits := by
          apply String.toList_injective
          simp [hchars]
        rw [htext', String.append_assoc, head?_append_of_ne hne] at hhead
        rw [htext']
        exact Accepts.plainPort hne hhead (parsePort_eq_some_iff.mp hport)
    · cases h

/-- Whatever is accepted is one of these texts. -/
theorem accepts_of_parseHostPort {s text host : String} {defaultPort port : UInt16}
    (htext : beforeFirst '/' s = text) (h : parseHostPort T s defaultPort = .ok (host, port)) :
    Accepts T defaultPort text host port := by
  rcases eq_or_ne text.toList.head? (some '[') with hhead | hhead
  · exact accepts_of_bracketed htext hhead h
  · exact accepts_of_plain htext hhead h

theorem parseHostPort_eq_ok_iff (hT : IpLiterals T) {s text host : String}
    {defaultPort port : UInt16} (htext : beforeFirst '/' s = text) :
    parseHostPort T s defaultPort = .ok (host, port) ↔ Accepts T defaultPort text host port :=
  ⟨accepts_of_parseHostPort htext, fun h => h.parses hT htext⟩

/-! ### What is read as it is meant -/

/-- The last character that is no digit stands at one place. -/
theorem digits_behind_unique {front front' back back' : List Char} {c c' : Char}
    (hc : c.isDigit = false) (hc' : c'.isDigit = false) (hback : ∀ d ∈ back, d.isDigit = true)
    (hback' : ∀ d ∈ back', d.isDigit = true) (h : front ++ c :: back = front' ++ c' :: back') :
    c = c' := by
  have hdrop : ∀ (front back : List Char) (c : Char), c.isDigit = false →
      (∀ d ∈ back, d.isDigit = true) →
      (front ++ c :: back).reverse.dropWhile Char.isDigit = c :: front.reverse := by
    intro front back c hc hback
    have hdigits : ∀ d ∈ back.reverse, d.isDigit = true :=
      fun d hd => hback d (List.mem_reverse.mp hd)
    simp [List.dropWhile_append_of_pos hdigits, hc]
  have hsame := hdrop front back c hc hback
  rw [h, hdrop front' back' c' hc' hback'] at hsame
  exact (List.cons.inj hsame).1.symm

/-- A sign before the port is not part of the number. -/
theorem WellRead.no_sign {text host digits : String} {defaultPort port p : UInt16}
    (h : WellRead T text defaultPort host port) (hdigits : PortText digits p) (front : String)
    (htext : text = front ++ ("+" ++ digits)) (hlonger : host.toList.length < text.toList.length) : False := by
  have hsign : ∀ (before after : List Char) (c : Char), c.isDigit = false → c ≠ '+' →
      (∀ d ∈ after, d.isDigit = true) → text.toList ≠ before ++ c :: after := by
    intro before after c hc hne hafter heq
    have hplus : text.toList = front.toList ++ '+' :: digits.toList := by simp [htext]
    rw [hplus] at heq
    exact hne (digits_behind_unique (by decide) hc (digitsValue_eq_some hdigits).2 hafter heq).symm
  rcases h.written with ⟨rfl, -⟩ | ⟨digits', hport, heq⟩ | ⟨heq, -⟩ | ⟨digits', hport, heq⟩
  · exact absurd hlonger (Nat.lt_irrefl _)
  · apply hsign host.toList digits'.toList ':' (by decide) (by decide)
      (digitsValue_eq_some hport).2
    simp [heq]
  · apply hsign ("[" ++ host).toList [] ']' (by decide) (by decide)
      (by simp)
    simp [heq]
  · apply hsign ("[" ++ host ++ "]").toList digits'.toList ':' (by decide) (by decide)
      (digitsValue_eq_some hport).2
    simp [heq]

theorem not_misread_of_wellRead {text : String} {defaultPort : UInt16}
    (h : ∀ host port, Accepts T defaultPort text host port → WellRead T text defaultPort host port) :
    ¬ Misread T text := by
  intro hmisread
  cases hmisread with
  | colons hne hhead hhost hport =>
      exact hhost (h _ _ (Accepts.plainPort hne hhead (AcceptsPort.digits hport))).hostText
  | bracket hne hhead hcolon hhost =>
      exact hhost (h _ _ (Accepts.plain hne hhead hcolon)).hostText
  | @sign host digits _ hne hhead hport =>
      have hread := h _ _ (Accepts.plainPort hne hhead (AcceptsPort.sign hport))
      exact hread.no_sign hport (host ++ ":") rfl (by simp)
  | @bracketedSign host digits _ hhost hport =>
      have hread := h _ _ (Accepts.bracketedPort hhost (AcceptsPort.sign hport))
      exact hread.no_sign hport ("[" ++ host ++ "]" ++ ":") rfl (by simp)

theorem Accepts.wellRead (hT : IpLiterals T) {text host : String} {defaultPort port : UInt16}
    (h : Accepts T defaultPort text host port) (hread : ¬ Misread T text) :
    WellRead T text defaultPort host port := by
  have hnonempty : isIpv6 T host = true → host ≠ "" := by
    rintro hhost rfl
    obtain ⟨addr, haddr⟩ := isIpv6_iff.mp hhost
    exact absurd (hT.v6 "" addr haddr).1 (by simp)
  cases h with
  | bracketed hhost =>
      exact ⟨hnonempty hhost, Or.inl hhost, Or.inr (Or.inr (Or.inl ⟨rfl, rfl⟩))⟩
  | bracketedPort hhost hport =>
      cases hport with
      | digits hdigits =>
          exact ⟨hnonempty hhost, Or.inl hhost, Or.inr (Or.inr (Or.inr ⟨_, hdigits, rfl⟩))⟩
      | sign hdigits => exact absurd (Misread.bracketedSign hhost hdigits) hread
  | plain hne hhead hcolon =>
      refine ⟨hne, ?_, Or.inl ⟨rfl, rfl⟩⟩
      by_contra hhost
      exact hread (Misread.bracket hne hhead hcolon hhost)
  | plainPort hne hhead hport =>
      cases hport with
      | digits hdigits =>
          refine ⟨hne, ?_, Or.inr (Or.inl ⟨_, hdigits, rfl⟩)⟩
          by_contra hhost
          exact hread (Misread.colons hne hhead hhost hdigits)
      | sign hdigits => exact absurd (Misread.sign hne hhead hdigits) hread

/-! ### Hosts in their usual forms -/

theorem isIpv4_iff {host : String} : isIpv4 T host = true ↔ ∃ addr, T.ipAddr host = some (.v4 addr) := by
  unfold isIpv4
  split
  · rename_i addr haddr
    simp [haddr]
  · rename_i hnone
    simpa using fun addr haddr => hnone addr haddr

theorem isDomain_of_isIpv4 (hT : IpLiterals T) {host : String} (h : isIpv4 T host = true) :
    IsDomain host := by
  obtain ⟨addr, haddr⟩ := isIpv4_iff.mp h
  obtain ⟨hne, hchars⟩ := hT.v4 host addr haddr
  refine ⟨hne, ?_⟩
  intro c hc
  rcases hchars c hc with hdigit | rfl
  · refine ⟨?_, ?_, ?_, ?_⟩ <;>
      · rintro rfl
        cases hdigit
  · decide

theorem givesHost_of_accepts (hT : IpLiterals T) {text host : String} {defaultPort : UInt16}
    (hslash : '/' ∉ text.toList) (halone : Accepts T defaultPort text host defaultPort)
    (hport : ∀ digits port, AcceptsPort digits port →
      Accepts T defaultPort (text ++ ":" ++ digits) host port) :
    GivesHost T defaultPort text host where
  alone := halone.parses hT (beforeFirst_eq_self hslash)
  withPort := by
    intro digits port hdigits
    have hnone : '/' ∉ digits.toList := not_digit (by decide) (digitsValue_eq_some hdigits).2
    apply (hport digits port (AcceptsPort.digits hdigits)).parses hT
    apply beforeFirst_eq_self
    simp [hslash, hnone]

theorem IsDomain.givesHost (hT : IpLiterals T) {host : String} (h : IsDomain host)
    (defaultPort : UInt16) : GivesHost T defaultPort host host := by
  obtain ⟨hne, hchars⟩ := h
  have habsent : ∀ c : Char, (c = ':' ∨ c = '/' ∨ c = '[' ∨ c = ']') → c ∉ host.toList := by
    intro c hc hmem
    obtain ⟨h1, h2, h3, h4⟩ := hchars c hmem
    rcases hc with heq | heq | heq | heq
    · exact h1 heq
    · exact h2 heq
    · exact h3 heq
    · exact h4 heq
  have hhead : host.toList.head? ≠ some '[' := by
    intro heq
    exact habsent '[' (by decide) (List.mem_of_mem_head? heq)
  apply givesHost_of_accepts hT (habsent '/' (by decide))
  · exact Accepts.plain hne hhead (habsent ':' (by decide))
  · intro digits port hport
    exact Accepts.plainPort hne hhead hport

theorem ipv6_givesHost (hT : IpLiterals T) {host : String} (h : isIpv6 T host = true)
    (defaultPort : UInt16) : GivesHost T defaultPort ("[" ++ host ++ "]") host := by
  have hslash : '/' ∉ host.toList := hT.no_bracket h (by decide) (by decide) (by decide)
  apply givesHost_of_accepts hT
  · simpa using hslash
  · exact Accepts.bracketed h
  · intro digits port hport
    exact Accepts.bracketedPort h hport

/-- Hosts in their usual forms are always read; a text is read as something
else exactly when it is one of the misread ones. -/
theorem parseHostPort_wellRead_iff (T : NetText) (hT : IpLiterals T) (s : String)
    (defaultPort : UInt16) :
    ((∀ host port, parseHostPort T s defaultPort = .ok (host, port) →
        WellRead T (beforeFirst '/' s) defaultPort host port) ↔ ¬ Misread T (beforeFirst '/' s)) ∧
      (∀ host, IsDomain host ∨ isIpv4 T host = true → GivesHost T defaultPort host host) ∧
      ∀ host, isIpv6 T host = true → GivesHost T defaultPort ("[" ++ host ++ "]") host := by
  refine ⟨⟨?_, ?_⟩, ?_, fun host hhost => ipv6_givesHost hT hhost defaultPort⟩
  · intro hread
    apply not_misread_of_wellRead
    intro host port haccepts
    exact hread host port ((parseHostPort_eq_ok_iff hT rfl).mpr haccepts)
  · intro hread host port hparse
    exact ((parseHostPort_eq_ok_iff hT rfl).mp hparse).wellRead hT hread
  · rintro host (hdomain | hipv4)
    · exact hdomain.givesHost hT defaultPort
    · exact (isDomain_of_isIpv4 hT hipv4).givesHost hT defaultPort

/-- A standard library that reads the one address. -/
def loopbackText : NetText where
  socketAddr _ := none
  ipAddr text := if text = "::1" then some (.v6 1) else none
  validUrl _ := false

theorem loopbackText_literals : IpLiterals loopbackText where
  v4 := by
    intro text addr h
    change (if text = "::1" then _ else _) = _ at h
    split at h <;> cases h
  v6 := by
    intro text addr h
    change (if text = "::1" then _ else _) = _ at h
    split at h
    · rename_i htext
      subst htext
      refine ⟨by simp, ?_⟩
      intro c hc
      rcases (by simpa using hc : c = ':' ∨ c = '1') with rfl | rfl <;> decide
    · cases h

theorem loopback_misread : Misread loopbackText "::1" := by
  have hhost : ¬ HostText loopbackText ":" := by
    rintro (hipv6 | hchars)
    · cases hipv6
    · exact (hchars ':' (by simp)).1 rfl
  have hport : PortText "1" 1 := rfl
  exact Misread.colons (by decide) (by decide) hhost hport

/-- With brackets the address is the host; without them it is not. -/
theorem loopback_read :
    GivesHost loopbackText 853 "[::1]" "::1" ∧
      ¬ ∀ host port, parseHostPort loopbackText "::1" 853 = .ok (host, port) →
        WellRead loopbackText (beforeFirst '/' "::1") 853 host port :=
  ⟨(parseHostPort_wellRead_iff loopbackText loopbackText_literals "[::1]" 853).2.2 "::1" rfl,
    fun hread => (parseHostPort_wellRead_iff loopbackText loopbackText_literals "::1" 853).1.mp hread
      loopback_misread⟩

/-- An address without brackets gives the host `:` and the port 1. -/
theorem bare_ipv6_split :
    ¬ ∀ (T : NetText), IpLiterals T → ∀ s defaultPort host port,
      parseHostPort T s defaultPort = .ok (host, port) →
        WellRead T (beforeFirst '/' s) defaultPort host port := by
  intro hall
  have haccepts : Accepts loopbackText 853 (":" ++ ":" ++ "1") ":" 1 :=
    Accepts.plainPort (by decide) (by decide) (AcceptsPort.digits rfl)
  have hread := hall loopbackText loopbackText_literals "::1" 853 ":" 1
    ((parseHostPort_eq_ok_iff loopbackText_literals rfl).mpr haccepts)
  rcases hread.hostText with hipv6 | hchars
  · cases hipv6
  · exact (hchars ':' (by simp)).1 rfl

end Relay.Dns.Upstream
