import Mathlib.Data.List.Infix
import Mathlib.Data.List.TakeWhile
import Mathlib.Tactic.Common

/-!
String literals of standard SQL in a text of bytes. A lexer takes a text apart
into the letters of its code and the values of its literals, where two quotes
in a literal stand for one; comments are left out. A text that is put together
from code and quoted values is read back as such exactly when no value has a
quote or a zero byte in it, the latter because the text ends there.
-/
namespace Gingko.SqlLiterals

def quote : UInt8 := 39
def dash : UInt8 := 45
def slash : UInt8 := 47
def star : UInt8 := 42
def newline : UInt8 := 10

inductive Token where
  | letter (c : UInt8)
  | literal (value : List UInt8)
  | unterminated
  deriving DecidableEq

/-- What the lexer is in. A doubled quote and the ends of a comment are two
letters long, and there is a mode for the second one. -/
inductive Mode where
  | code
  | literal (value : List UInt8)
  | doubled (value : List UInt8)
  | lineComment
  | opening
  | comment
  | closing

def lexFrom : Mode → List UInt8 → List Token
  | .code, [] => []
  | .code, c :: rest =>
    if c = quote then lexFrom (.literal []) rest
    else if c = dash ∧ rest.head? = some dash then lexFrom .lineComment rest
    else if c = slash ∧ rest.head? = some star then lexFrom .opening rest
    else .letter c :: lexFrom .code rest
  | .literal _, [] => [.unterminated]
  | .literal value, c :: rest =>
    if c ≠ quote then lexFrom (.literal (value ++ [c])) rest
    else if rest.head? = some quote then lexFrom (.doubled value) rest
    else .literal value :: lexFrom .code rest
  | .doubled _, [] => [.unterminated]
  | .doubled value, c :: rest => lexFrom (.literal (value ++ [c])) rest
  | .lineComment, [] => []
  | .lineComment, c :: rest =>
    if c = newline then lexFrom .code rest else lexFrom .lineComment rest
  | .opening, [] => []
  | .opening, _ :: rest => lexFrom .comment rest
  | .comment, [] => []
  | .comment, c :: rest =>
    if c = star ∧ rest.head? = some slash then lexFrom .closing rest else lexFrom .comment rest
  | .closing, [] => []
  | .closing, _ :: rest => lexFrom .code rest

def lex (text : List UInt8) : List Token := lexFrom .code text

section Literals

/-- A value as a literal would have to write it. -/
def doubleQuotes : List UInt8 → List UInt8
  | [] => []
  | c :: rest => if c = quote then quote :: quote :: doubleQuotes rest else c :: doubleQuotes rest

theorem mem_doubleQuotes (c : UInt8) (value : List UInt8) (h : c ∈ value) :
    c ∈ doubleQuotes value := by
  induction value with
  | nil => exact absurd h List.not_mem_nil
  | cons d rest ih =>
    rw [doubleQuotes]
    rcases List.mem_cons.mp h with rfl | hrest
    · split
      · rename_i hquote
        rw [hquote]
        exact List.mem_cons_self ..
      · exact List.mem_cons_self ..
    · split
      · exact List.mem_cons_of_mem quote (List.mem_cons_of_mem quote (ih hrest))
      · exact List.mem_cons_of_mem d (ih hrest)

/-- A text that has no quote and stands before one is the value of its literal. -/
theorem lex_literal (text rest value : List UInt8) (htext : quote ∉ text)
    (hrest : rest.head? ≠ some quote) :
    lexFrom (.literal value) (text ++ quote :: rest) =
      .literal (value ++ text) :: lexFrom .code rest := by
  induction text generalizing value with
  | nil => simp [lexFrom, hrest]
  | cons c text ih =>
    have hc : quote ≠ c := List.ne_of_not_mem_cons htext
    have hothers : quote ∉ text := List.not_mem_of_not_mem_cons htext
    simp only [List.cons_append, lexFrom]
    rw [if_pos (Ne.symm hc), ih _ hothers, List.append_assoc, List.singleton_append]

/-- A literal that is read stands in the text with its quotes doubled. -/
theorem prefix_of_lex_literal (text value read : List UInt8) (tokens : List Token)
    (h : lexFrom (.literal value) text = .literal read :: tokens) :
    ∃ more, read = value ++ more ∧ doubleQuotes more ++ [quote] <+: text := by
  induction text using List.twoStepInduction generalizing value with
  | nil => simp [lexFrom] at h
  | singleton c =>
    by_cases hc : c = quote
    · simp only [lexFrom, hc, ne_eq, not_true_eq_false, if_false, List.head?_nil,
        reduceCtorEq] at h
      obtain rfl := Token.literal.inj (List.cons.inj h).1
      exact ⟨[], by simp, by simp [doubleQuotes, hc]⟩
    · simp [lexFrom, hc] at h
  | cons_cons c d text ih ihd =>
    by_cases hc : c = quote
    · by_cases hd : d = quote
      · simp only [lexFrom, hc, hd, ne_eq, not_true_eq_false, if_false, List.head?_cons,
          if_true] at h
        obtain ⟨more, rfl, hmore⟩ := ih _ h
        refine ⟨quote :: more, by simp, ?_⟩
        rw [hc, hd, doubleQuotes, if_pos rfl]
        exact List.prefix_cons_inj _ |>.mpr (List.prefix_cons_inj _ |>.mpr hmore)
      · rw [lexFrom, if_neg (not_not_intro hc), if_neg (by simpa using hd)] at h
        obtain rfl := Token.literal.inj (List.cons.inj h).1
        exact ⟨[], by simp, by simp [doubleQuotes, hc]⟩
    · rw [lexFrom, if_pos hc] at h
      obtain ⟨more, rfl, hmore⟩ := ihd d _ h
      refine ⟨c :: more, by simp, ?_⟩
      rw [doubleQuotes, if_neg hc]
      exact List.prefix_cons_inj _ |>.mpr hmore

/-- Doubled quotes run ahead of single ones, and what follows does not make up for it. -/
theorem doubled_not_in_front (value rest : List UInt8) (ahead : ℕ)
    (hrest : rest.head? ≠ some quote) :
    ¬ List.replicate (ahead + 1) quote ++ (doubleQuotes value ++ [quote]) <+:
      value ++ quote :: rest := by
  induction value generalizing ahead with
  | nil =>
    intro hfront
    have htail := (List.prefix_cons_inj quote).mp hfront
    cases ahead <;> cases rest <;> simp_all [doubleQuotes, List.replicate_succ]
  | cons c value ih =>
    intro hfront
    rw [List.replicate_succ, List.cons_append, List.cons_append, List.cons_prefix_cons] at hfront
    obtain ⟨hc, htail⟩ := hfront
    rw [doubleQuotes, if_pos hc.symm] at htail
    apply ih (ahead + 1)
    simpa [List.replicate_succ', List.append_assoc] using htail

/-- So a value that is read back as it is written has no quote. -/
theorem not_mem_of_prefix_doubled (value rest : List UInt8)
    (hrest : rest.head? ≠ some quote)
    (h : doubleQuotes value ++ [quote] <+: value ++ quote :: rest) : quote ∉ value := by
  induction value with
  | nil => exact List.not_mem_nil
  | cons c value ih =>
    rw [doubleQuotes] at h
    split at h
    · rename_i hc
      rw [hc] at h
      exact absurd ((List.prefix_cons_inj quote).mp h) (doubled_not_in_front value rest 0 hrest)
    · rename_i hc
      have htail := ih ((List.prefix_cons_inj c).mp h)
      rw [List.mem_cons, not_or]
      exact ⟨fun heq => hc heq.symm, htail⟩

end Literals

section Pieces

/-- Part of a statement: code, or a quoted text with the value it is meant to have. -/
inductive Piece where
  | code (text : List UInt8)
  | literal (written value : List UInt8)

def render : List Piece → List UInt8
  | [] => []
  | .code text :: rest => text ++ render rest
  | .literal written _ :: rest => quote :: written ++ quote :: render rest

def intended : List Piece → List Token
  | [] => []
  | .code text :: rest => text.map .letter ++ intended rest
  | .literal _ value :: rest => .literal value :: intended rest

/-- The values that the literals are meant to have. -/
def values : List Piece → List (List UInt8)
  | [] => []
  | .code _ :: rest => values rest
  | .literal _ value :: rest => value :: values rest

/-- The text as a C string. -/
def beforeZero (text : List UInt8) : List UInt8 := text.takeWhile (· ≠ 0)

/-- Code that is read letter by letter, whatever follows. -/
structure Plain (code : List UInt8) : Prop where
  nonzero : 0 ∉ code
  letters : ∀ rest, lex (code ++ rest) = code.map .letter ++ lex rest

def Clean (value : List UInt8) : Prop := quote ∉ value ∧ 0 ∉ value

/-- A literal is written as it is meant, at least where no zero byte is in it, and
the next piece does not start with a quote. -/
def Framed : List Piece → Prop
  | [] => True
  | .code text :: rest => Plain text ∧ Framed rest
  | .literal written value :: rest =>
    (0 ∉ value → written = value) ∧ (render rest).head? ≠ some quote ∧ Framed rest

theorem plain_nil : Plain [] := ⟨List.not_mem_nil, fun _ => rfl⟩

theorem Plain.append {a b : List UInt8} (ha : Plain a) (hb : Plain b) : Plain (a ++ b) := by
  refine ⟨?_, ?_⟩
  · simp [ha.nonzero, hb.nonzero]
  · intro rest
    rw [List.append_assoc, ha.letters, hb.letters, List.map_append, List.append_assoc]

theorem plain_letter (c : UInt8) (hzero : c ≠ 0) (hquote : c ≠ quote) (hdash : c ≠ dash)
    (hslash : c ≠ slash) : Plain [c] := by
  refine ⟨?_, ?_⟩
  · simpa using hzero.symm
  · intro rest
    simp [lex, lexFrom, hquote, hdash, hslash]

theorem plain_of_letters (code : List UInt8)
    (h : ∀ c ∈ code, c ≠ 0 ∧ c ≠ quote ∧ c ≠ dash ∧ c ≠ slash) : Plain code := by
  induction code with
  | nil => exact plain_nil
  | cons c code ih =>
    obtain ⟨hzero, hquote, hdash, hslash⟩ := h c (List.mem_cons_self ..)
    exact (plain_letter c hzero hquote hdash hslash).append
      (ih (fun d hd => h d (List.mem_cons_of_mem c hd)))

def plainLetter (c : UInt8) : Bool := c != 0 && c != quote && c != dash && c != slash

theorem plain_of_all (code : List UInt8) (h : code.all plainLetter = true) : Plain code := by
  apply plain_of_letters
  intro c hc
  have hletter := List.all_eq_true.mp h c hc
  simpa [plainLetter, and_assoc] using hletter

theorem clean_of_all (value : List UInt8) (h : value.all plainLetter = true) : Clean value := by
  refine ⟨?_, ?_⟩ <;> intro hmem <;> have hletter := List.all_eq_true.mp h _ hmem
  · simp [plainLetter] at hletter
  · simp [plainLetter] at hletter

theorem clean_append (a b : List UInt8) : Clean (a ++ b) ↔ Clean a ∧ Clean b := by
  simp only [Clean, List.mem_append, not_or]
  tauto

/-- A single dash is no comment. -/
theorem plain_dash (c : UInt8) (code : List UInt8) (hc : c ≠ dash) (hplain : Plain (c :: code)) :
    Plain (dash :: c :: code) := by
  refine ⟨?_, ?_⟩
  · have hnonzero := hplain.nonzero
    simp only [List.mem_cons, not_or] at hnonzero ⊢
    exact ⟨by decide, hnonzero⟩
  · intro rest
    have hletters := hplain.letters rest
    have hquote : dash ≠ quote := by decide
    have hslash : dash ≠ slash := by decide
    unfold lex at hletters ⊢
    rw [List.cons_append, lexFrom, if_neg hquote, if_neg (by simp [hc]),
      if_neg (fun h => hslash h.1), hletters]
    rfl

theorem beforeZero_append (a b : List UInt8) (h : 0 ∉ a) :
    beforeZero (a ++ b) = a ++ beforeZero b := by
  apply List.takeWhile_append_of_pos
  intro c hc
  simp only [ne_eq, decide_not, Bool.not_eq_eq_eq_not, Bool.not_true, decide_eq_false_iff_not]
  rintro rfl
  exact h hc

theorem prefix_of_beforeZero (text : List UInt8) : beforeZero text <+: text :=
  List.takeWhile_prefix _

theorem zero_not_mem_beforeZero (text : List UInt8) : 0 ∉ beforeZero text := by
  intro hmem
  have hne := List.mem_takeWhile_imp hmem
  simp at hne

/-- The first letter that is left of a text is its first letter, if there is one. -/
theorem head_beforeZero (text : List UInt8) (h : text.head? ≠ some quote) :
    (beforeZero text).head? ≠ some quote := by
  cases text with
  | nil => exact h
  | cons c rest =>
    by_cases hc : c = 0
    · simp [beforeZero, hc]
    · simpa [beforeZero, hc] using h

theorem clean_of_lex (written value rest : List UInt8) (tokens : List Token)
    (hwritten : 0 ∉ value → written = value) (hrest : rest.head? ≠ some quote)
    (h : lexFrom (.literal []) (beforeZero (written ++ quote :: rest)) =
      .literal value :: tokens) : Clean value := by
  obtain ⟨more, hmore, hfront⟩ := prefix_of_lex_literal _ _ _ _ h
  rw [List.nil_append] at hmore
  rw [← hmore] at hfront
  have hnonzero : 0 ∉ value := by
    intro hmem
    have hdoubled := hfront.subset (List.mem_append_left _ (mem_doubleQuotes 0 value hmem))
    exact zero_not_mem_beforeZero _ hdoubled
  rw [hwritten hnonzero] at hfront
  exact ⟨not_mem_of_prefix_doubled value rest hrest (hfront.trans (prefix_of_beforeZero _)),
    hnonzero⟩

theorem lex_clean (value rest : List UInt8) (hclean : Clean value)
    (hrest : rest.head? ≠ some quote) :
    lexFrom (.literal []) (beforeZero (value ++ quote :: rest)) =
      .literal value :: lex (beforeZero rest) := by
  have hcut : beforeZero (value ++ quote :: rest) = value ++ quote :: beforeZero rest := by
    rw [beforeZero_append value _ hclean.2]
    rfl
  rw [hcut, lex_literal value _ [] hclean.1 (head_beforeZero rest hrest), List.nil_append]
  rfl

theorem Framed.code {code : List UInt8} {rest : List Piece} (hplain : Plain code)
    (h : Framed rest) : Framed (.code code :: rest) := ⟨hplain, h⟩

/-- A literal in front of code, the first letter of which is given. -/
theorem Framed.literal {written value code : List UInt8} {rest : List Piece} (c : UInt8)
    (hwritten : 0 ∉ value → written = value) (hhead : code.head? = some c) (hc : c ≠ quote)
    (h : Framed (.code code :: rest)) : Framed (.literal written value :: .code code :: rest) := by
  refine ⟨hwritten, ?_, h⟩
  rw [render, List.head?_append, hhead]
  simpa using hc

/-- A statement is read as it is meant exactly when all its values are clean. -/
theorem lex_render_iff (pieces : List Piece) (hframed : Framed pieces) :
    lex (beforeZero (render pieces)) = intended pieces ↔ ∀ value ∈ values pieces, Clean value := by
  induction pieces with
  | nil => simp [render, intended, values, lex, lexFrom, beforeZero]
  | cons piece rest ih =>
    cases piece with
    | code text =>
      obtain ⟨hplain, hrest⟩ := hframed
      rw [render, intended, values, beforeZero_append text _ hplain.nonzero, hplain.letters,
        List.append_right_inj, ih hrest]
    | literal written value =>
      obtain ⟨hwritten, hhead, hrest⟩ := hframed
      have hopen : lex (beforeZero (quote :: written ++ quote :: render rest)) =
          lexFrom (.literal []) (beforeZero (written ++ quote :: render rest)) := by
        simp [lex, beforeZero, lexFrom, quote]
      rw [render, intended, values, hopen, List.forall_mem_cons]
      constructor
      · intro h
        have hclean := clean_of_lex written value _ _ hwritten hhead h
        rw [hwritten hclean.2, lex_clean value _ hclean hhead] at h
        exact ⟨hclean, (ih hrest).mp (List.cons.inj h).2⟩
      · rintro ⟨hclean, hothers⟩
        rw [hwritten hclean.2, lex_clean value _ hclean hhead, (ih hrest).mpr hothers]

end Pieces

end Gingko.SqlLiterals
