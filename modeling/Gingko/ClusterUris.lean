import Gingko.DecimalTexts
import Gingko.TextFields

/-!
The address of a cluster on the command line. Its four separators are searched one
after another, the parts between them are cut out, and the port is read leniently. What
is accepted is the address with no part empty and a port that does not read as zero.
-/
namespace Gingko.ClusterUris

open DecimalTexts TextFields

section Numbers

def isSpace (c : Char) : Bool := c = ' ' || (9 ≤ c.toNat && c.toNat ≤ 13)

/-- The number in front of a text, after blanks and a sign, kept inside 64 bits. -/
def strtol (text : Text) : ℤ :=
  match text.dropWhile isSpace with
  | '-' :: digits => max (-(digitsValue digits : ℤ)) (-9223372036854775808)
  | '+' :: digits => min (digitsValue digits) 9223372036854775807
  | digits => min (digitsValue digits) 9223372036854775807

/-- The conversion to `int` keeps the low 32 bits. -/
def atoi (text : Text) : ℤ := (strtol text).bmod 4294967296

def decimal (n : ℤ) : Text :=
  if n < 0 then '-' :: Nat.toDigits 10 n.natAbs else Nat.toDigits 10 n.natAbs

/-- The decimal numbers in the range of a port. -/
structure DecimalPort (text : Text) : Prop where
  digits : ∀ c ∈ text, c.isDigit = true
  pos : 1 ≤ Nat.ofDigitChars 10 text 0
  le : Nat.ofDigitChars 10 text 0 ≤ 65535

/-- A digit begins neither blanks nor a sign. -/
theorem strtol_digits (text : Text) (hdigits : ∀ c ∈ text, c.isDigit = true) :
    strtol text = min (Nat.ofDigitChars 10 text 0 : ℤ) 9223372036854775807 := by
  have hspace : ∀ c ∈ text, isSpace c = false := by
    intro c hc
    obtain ⟨d, hd, rfl, -⟩ := isDigit_cases c (hdigits c hc)
    interval_cases d <;> rfl
  have hdrop : text.dropWhile isSpace = text := by
    cases text with
    | nil => rfl
    | cons c rest => rw [List.dropWhile_cons_of_neg (by simp [hspace c List.mem_cons_self])]
  have hsign (c : Char) (digits : Text) (hsign : c.isDigit = false) : text ≠ c :: digits := by
    rintro rfl
    rw [hdigits c List.mem_cons_self] at hsign
    contradiction
  have htake : digitsValue text = Nat.ofDigitChars 10 text 0 := by
    have hself := digitsValue_append text [] hdigits (by simp)
    rwa [List.append_nil] at hself
  rw [strtol, hdrop]
  split
  · exact absurd rfl (hsign '-' _ rfl)
  · exact absurd rfl (hsign '+' _ rfl)
  · rw [htake]

theorem atoi_decimalPort (text : Text) (h : DecimalPort text) :
    atoi text = Nat.ofDigitChars 10 text 0 := by
  have hle := h.le
  rw [atoi, strtol_digits text h.digits, min_eq_left (by omega), Int.bmod_def]
  split <;> omega

end Numbers
section Parser

structure ClusterConfig where
  host : Text
  port : ℤ
  user : Text
  passwd : Text
  prefixPath : Text

def scheme : Text := "hdfs://".toList

/-- One behind a position; behind the missing one is the front. -/
def next : Option ℕ → ℕ
  | none => 0
  | some pos => pos + 1

/-- `none` is an exception, and `some none` a refusal. -/
def parseClusterConfig (uri : Text) : Option (Option ClusterConfig) := do
  let front ← substr uri 0 7
  if front ≠ scheme then some none
  else
    let pos1 := find uri ':' 7
    let pos2 := find uri '@' (next pos1)
    let pos3 := find uri ':' (next pos2)
    let pos4 := find uri '/' (next pos3)
    match pos1, pos2, pos3, pos4 with
    | some pos1, some pos2, some pos3, some pos4 =>
      let user ← substr uri 7 (pos1 - 7)
      let passwd ← substr uri (pos1 + 1) (pos2 - pos1 - 1)
      let host ← substr uri (pos2 + 1) (pos3 - pos2 - 1)
      let port ← substr uri (pos3 + 1) (pos4 - pos3 - 1)
      let prefixPath ← substr uri pos4 uri.length
      let config : ClusterConfig := ⟨host, atoi port, user, passwd, prefixPath⟩
      if config.user = [] ∨ config.passwd = [] ∨ config.host = [] ∨ config.port = 0 ∨
          config.prefixPath = [] then some none
      else some (some config)
    | _, _, _, _ => some none

def uriText (user passwd host port prefixPath : Text) : Text :=
  scheme ++ user ++ ':' :: passwd ++ '@' :: host ++ ':' :: port ++ prefixPath

/-- The address that is reported for a download from the cluster. -/
def hdfsAddress (config : ClusterConfig) : Text :=
  uriText config.user config.passwd config.host (decimal config.port) config.prefixPath

/-- An address by its parts, each without the separator behind it. -/
structure ClusterUri where
  user : Text
  passwd : Text
  host : Text
  port : Text
  path : Text
  user_colon : ':' ∉ user
  passwd_at : '@' ∉ passwd
  host_colon : ':' ∉ host
  port_slash : '/' ∉ port

def ClusterUri.text (a : ClusterUri) : Text :=
  uriText a.user a.passwd a.host a.port ('/' :: a.path)

def ClusterUri.Filled (a : ClusterUri) : Prop := a.user ≠ [] ∧ a.passwd ≠ [] ∧ a.host ≠ []

def ClusterUri.config (a : ClusterUri) : ClusterConfig :=
  ⟨a.host, atoi a.port, a.user, a.passwd, '/' :: a.path⟩

theorem substr_front (uri : Text) : substr uri 0 7 = some (uri.take 7) := if_pos (Nat.zero_le _)

/-- A part behind a separator: where it ends, what it is, and what follows. -/
theorem cut_part {uri part rest : Text} {c : Char} {pos : ℕ}
    (hdrop : uri.drop (pos + 1) = part ++ c :: rest) (hc : c ∉ part) :
    find uri c (pos + 1) = some (pos + 1 + part.length) ∧
      substr uri (pos + 1) (pos + 1 + part.length - pos - 1) = some part ∧
      uri.drop (pos + 1 + part.length + 1) = rest := by
  have hpos := pos_le_of_drop hdrop (List.append_ne_nil_of_right_ne_nil part (by simp))
  have hlength : pos + 1 + part.length - pos - 1 = part.length := by omega
  rw [hlength]
  exact ⟨find_field hdrop hc, substr_field hdrop hpos, drop_field hdrop⟩

/-- The separators are found behind the parts, and the parts are cut out. -/
theorem parse_text (a : ClusterUri) :
    parseClusterConfig a.text =
      if a.config.user = [] ∨ a.config.passwd = [] ∨ a.config.host = [] ∨ a.config.port = 0 ∨
          a.config.prefixPath = [] then some none
      else some (some a.config) := by
  have hfront : a.text.take 7 = scheme := by
    simp only [ClusterUri.text, uriText, List.append_assoc]
    exact List.take_left' rfl
  have h0 : a.text.drop (6 + 1) = a.user ++ ':' :: (a.passwd ++ '@' :: (a.host ++ ':' ::
      (a.port ++ '/' :: a.path))) := by
    simp only [ClusterUri.text, uriText, List.append_assoc, List.cons_append]
    exact List.drop_left' rfl
  obtain ⟨hfind1, huser, h1⟩ := cut_part h0 a.user_colon
  obtain ⟨hfind2, hpasswd, h2⟩ := cut_part h1 a.passwd_at
  obtain ⟨hfind3, hhost, h3⟩ := cut_part h2 a.host_colon
  obtain ⟨hfind4, hport, -⟩ := cut_part h3 a.port_slash
  have hpath : substr a.text (6 + 1 + a.user.length + 1 + a.passwd.length + 1 + a.host.length + 1 +
      a.port.length) a.text.length = some ('/' :: a.path) := by
    have hrest := drop_separator h3
    rw [substr, if_pos (pos_le_of_drop hrest (List.cons_ne_nil _ _)), hrest]
    rw [List.take_of_length_le]
    rw [← hrest, List.length_drop]
    exact Nat.sub_le _ _
  have huser : substr a.text 7 (6 + 1 + a.user.length - 7) = some a.user := by
    rw [← huser]
    rfl
  unfold parseClusterConfig
  simp only [substr_front, hfront, ne_eq, not_true_eq_false, if_false, hfind1, next, hfind2, hfind3,
    hfind4, huser, hpasswd, hhost, hport, hpath, Option.bind_eq_bind, Option.bind_some]
  rfl

/-- A text that is no address is refused. -/
theorem parse_other (uri : Text) (hother : ¬∃ a : ClusterUri, uri = a.text) :
    parseClusterConfig uri = some none := by
  unfold parseClusterConfig
  simp only [substr_front, Option.bind_eq_bind, Option.bind_some]
  split
  · rfl
  · next hscheme =>
    have hscheme : uri.take 7 = scheme := not_not.mp hscheme
    split
    · next pos1 pos2 pos3 pos4 hfind1 hfind2 hfind3 hfind4 =>
      rw [hfind1] at hfind2
      rw [hfind1, hfind2] at hfind3
      rw [hfind1, hfind2, hfind3] at hfind4
      obtain ⟨user, rest1, h0, huser, rfl⟩ := exists_field_of_find hfind1
      obtain ⟨passwd, rest2, h1, hpasswd, rfl⟩ := exists_field_of_find hfind2
      obtain ⟨host, rest3, h2, hhost, rfl⟩ := exists_field_of_find hfind3
      obtain ⟨port, path, h3, hport, -⟩ := exists_field_of_find hfind4
      refine absurd ⟨⟨user, passwd, host, port, path, huser, hpasswd, hhost, hport⟩, ?_⟩ hother
      -- each part is what is left behind the separator before it
      have hrest1 : rest1 = passwd ++ '@' :: rest2 := (drop_field h0).symm.trans h1
      have hrest2 : rest2 = host ++ ':' :: rest3 := (drop_field h1).symm.trans h2
      have hrest3 : rest3 = port ++ '/' :: path := (drop_field h2).symm.trans h3
      have hwhole := List.take_append_drop 7 uri
      rw [hscheme, h0, hrest1, hrest2, hrest3] at hwhole
      rw [← hwhole]
      simp [ClusterUri.text, uriText]
    · rfl

theorem ClusterUri.refused_of_zero (a : ClusterUri) (hzero : atoi a.port = 0) :
    parseClusterConfig a.text = some none := by
  rw [parse_text, if_pos]
  exact .inr (.inr (.inr (.inl hzero)))

theorem ClusterUri.refused_of_empty (a : ClusterUri) (hempty : ¬a.Filled) :
    parseClusterConfig a.text = some none := by
  rw [parse_text, if_pos]
  by_contra hnone
  simp only [not_or] at hnone
  exact hempty ⟨hnone.1, hnone.2.1, hnone.2.2.1⟩

theorem ClusterUri.accepted (a : ClusterUri) (hfilled : a.Filled) (hport : atoi a.port ≠ 0) :
    parseClusterConfig a.text = some (some a.config) := by
  rw [parse_text, if_neg]
  rintro (h | h | h | h | h)
  · exact hfilled.1 h
  · exact hfilled.2.1 h
  · exact hfilled.2.2 h
  · exact hport h
  · cases h

theorem decimal_of_pos (n : ℤ) (hn : 1 ≤ n) : decimal n = Nat.toDigits 10 n.toNat := by
  rw [decimal, if_neg (by omega), show n.natAbs = n.toNat by omega]

/-- No text makes the parser throw. What is no address, has an empty part or a port that
reads as zero is refused. An address with its parts filled and a port that reads as one of
1 to 65535 is accepted, and comes back with the number in place of the text of the port;
for a decimal port that is the same address but for the zeros in front of the port. -/
theorem parseClusterConfig_spec (uri : Text) :
    (∃ answer, parseClusterConfig uri = some answer) ∧
      ((¬∃ a : ClusterUri, uri = a.text) → parseClusterConfig uri = some none) ∧
      ∀ a : ClusterUri, uri = a.text →
        (¬a.Filled ∨ atoi a.port = 0 → parseClusterConfig uri = some none) ∧
        (a.Filled → 1 ≤ atoi a.port → atoi a.port ≤ 65535 → ∃ config,
          parseClusterConfig uri = some (some config) ∧
          hdfsAddress config = uriText a.user a.passwd a.host
            (Nat.toDigits 10 (atoi a.port).toNat) ('/' :: a.path)) ∧
        (DecimalPort a.port → 1 ≤ atoi a.port ∧ atoi a.port ≤ 65535 ∧
          ∃ zeros, a.port = List.replicate zeros '0' ++ Nat.toDigits 10 (atoi a.port).toNat) := by
  refine ⟨?_, parse_other uri, ?_⟩
  · by_cases haddress : ∃ a : ClusterUri, uri = a.text
    · obtain ⟨a, rfl⟩ := haddress
      rw [parse_text]
      split
      · exact ⟨none, rfl⟩
      · exact ⟨some a.config, rfl⟩
    · exact ⟨none, parse_other uri haddress⟩
  · rintro a rfl
    refine ⟨?_, fun hfilled hlow hhigh => ?_, fun hdecimal => ?_⟩
    · rintro (hempty | hzero)
      · exact a.refused_of_empty hempty
      · exact a.refused_of_zero hzero
    · refine ⟨a.config, a.accepted hfilled (by omega), ?_⟩
      simp only [hdfsAddress, ClusterUri.config, decimal_of_pos _ hlow]
    · have hpos := hdecimal.pos
      have hle := hdecimal.le
      rw [atoi_decimalPort a.port hdecimal]
      obtain ⟨zeros, hzeros⟩ := digits_eq a.port hdecimal.digits
      rw [if_neg (by omega)] at hzeros
      refine ⟨by omega, by omega, zeros, ?_⟩
      rw [Int.toNat_natCast]
      exact hzeros

def lenientUri : Text := "hdfs://u:p@h:80x/d".toList

/-- A port with a letter behind its digits is accepted, and the letter is lost. -/
theorem lenient_port_accepted :
    (∃ config, parseClusterConfig lenientUri = some (some config) ∧
      hdfsAddress config = "hdfs://u:p@h:80/d".toList) ∧
    ¬∃ a : ClusterUri, lenientUri = a.text ∧ a.Filled ∧ DecimalPort a.port := by
  have hparsed : parseClusterConfig lenientUri =
      some (some ⟨['h'], 80, ['u'], ['p'], ['/', 'd']⟩) := rfl
  refine ⟨⟨_, hparsed, rfl⟩, ?_⟩
  rintro ⟨a, htext, hfilled, hdecimal⟩
  have hpos := hdecimal.pos
  have haccepted := a.accepted hfilled (by rw [atoi_decimalPort a.port hdecimal]; omega)
  rw [← htext, hparsed] at haccepted
  obtain ⟨hhost, -, huser, hpasswd, hpath⟩ :=
    ClusterConfig.mk.inj (Option.some.inj (Option.some.inj haccepted))
  have hletter : 'x' ∈ lenientUri := by decide
  rw [htext, ClusterUri.text, ← huser, ← hpasswd, ← hhost, ← hpath] at hletter
  have hscheme : 'x' ∉ scheme := by decide
  simp only [uriText, List.mem_append, List.mem_cons, hscheme, Char.reduceEq, List.not_mem_nil,
    false_or, or_false] at hletter
  have hdigit := hdecimal.digits 'x' hletter
  contradiction

end Parser
end Gingko.ClusterUris
