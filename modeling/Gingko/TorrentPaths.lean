import Gingko.TrimmedPaths

/-!
Paths in a torrent. They are put together from names, taken apart again and cleaned, and
both slashes count as separators in some of these functions and only one in the others.
On paths of clean names they agree: such a path is not changed by being cleaned, and its
names, its parent and its last name are what it was put together from.
-/
namespace Gingko.TorrentPaths

open Base64Codec
open DataPaths (slash)
open TrimmedPaths (dot dotDot joined intercalate_cons)

section Functions

def backslash : UInt8 := 92

def colon : UInt8 := 58

def underscore : UInt8 := 95

def period : UInt8 := 46

def isSeparator (c : UInt8) : Bool := c == slash || c == backslash

/-- The strings that `split_path` puts behind one another. -/
def splitPath (f : ByteString) : List ByteString := (f.splitOn slash).filter (· ≠ [])

/-- What a loop over `next_path_element` comes by; there is always a first one. -/
def pathElements (f : ByteString) : List ByteString :=
  match splitPath f with
  | [] => [[]]
  | elements => elements

def combinePath (lhs rhs : ByteString) : ByteString :=
  if lhs = [] ∨ lhs = dot then rhs
  else if rhs = [] ∨ rhs = dot then lhs
  else lhs ++ (if lhs.getLast? = some slash then [] else [slash]) ++ rhs

/-- The separator stays at the end of the parent. -/
def parentPath (f : ByteString) : ByteString :=
  if f = [slash] then []
  else ((f.reverse.dropWhile isSeparator).dropWhile (!isSeparator ·)).reverse

def hasParentPath (f : ByteString) : Bool :=
  f ≠ [slash] && (f.reverse.dropWhile isSeparator).any isSeparator

/-- A single name that ends with slashes loses its last letter. -/
def filename (f : ByteString) : ByteString :=
  if f.getLast? = some slash then
    let name := f.reverse.dropWhile (· == slash)
    if name = [] then [slash]
    else if slash ∈ name then (name.takeWhile (· != slash)).reverse
    else name.reverse.dropLast
  else (f.reverse.takeWhile (· != slash)).reverse

def isComplete (f : ByteString) : Bool := f.head? = some slash

/-- From the last dot of the last name on. -/
def extension (f : ByteString) : ByteString :=
  let name := (f.reverse.takeWhile (· != slash)).reverse
  if period ∈ name then
    period :: (name.reverse.takeWhile (· != period)).reverse
  else []

def removeExtension (f : ByteString) : ByteString :=
  let base := ((f.reverse.dropWhile (· != period)).drop 1).reverse
  if period ∉ f ∨ base = [] ∨ period ∉ f.reverse.takeWhile (· != slash) then f else base

def validPathElement (element : ByteString) : Bool :=
  !(element = [] || element = dot || element = dotDot || element.head?.any isSeparator ||
    element.getLast? = some colon)

def maxPathLen : ℕ := 4096

def trimPathElement (element : ByteString) : ByteString :=
  if maxPathLen < element.length then
    let ext := extension element
    if 15 < ext.length then element.take maxPathLen
    else element.take (maxPathLen - ext.length) ++ ext
  else element

def sanitizePath (p : ByteString) : ByteString :=
  (pathElements p).foldl (fun newPath pe =>
    if validPathElement pe then combinePath newPath (trimPathElement pe) else newPath) []

def isContinuation (c : UInt8) : Bool := c &&& 0xc0 == 0x80

/-- Invalid sequences and control characters become underscores; a sequence that is cut
off at the end ends the loop. -/
def verifyEncoding : ByteString → ByteString
  | [] => []
  | c :: rest =>
    if c &&& 0x80 = 0 then (if c < 32 then underscore else c) :: verifyEncoding rest
    else
      match rest with
      | [] => [underscore]
      | d :: rest =>
        if c &&& 0xe0 = 0xc0 ∧ isContinuation d then c :: d :: verifyEncoding rest
        else
          match rest with
          | [] => [underscore]
          | e :: rest =>
            if c &&& 0xf0 = 0xe0 ∧ isContinuation d ∧ isContinuation e then
              c :: d :: e :: verifyEncoding rest
            else
              match rest with
              | [] => [underscore]
              | f :: rest =>
                if c &&& 0xf8 = 0xf0 ∧ isContinuation d ∧ isContinuation e ∧ isContinuation f then
                  c :: d :: e :: f :: verifyEncoding rest
                else underscore :: verifyEncoding (d :: e :: f :: rest)

end Functions

section Clean

/-- A name that no function changes. -/
structure Clean (name : ByteString) : Prop where
  ne : name ≠ []
  plain : ∀ c ∈ name, isSeparator c = false
  notDot : name ≠ dot
  notDotDot : name ≠ dotDot
  noColon : name.getLast? ≠ some colon
  short : name.length ≤ maxPathLen
  encoded : verifyEncoding name = name

instance (name : ByteString) : Decidable (Clean name) :=
  decidable_of_iff (name ≠ [] ∧ name.all (!isSeparator ·) = true ∧ name ≠ dot ∧
    name ≠ dotDot ∧ name.getLast? ≠ some colon ∧ name.length ≤ maxPathLen ∧
    verifyEncoding name = name)
    ⟨fun ⟨ne, plain, notDot, notDotDot, noColon, short, encoded⟩ =>
      ⟨ne, by simpa using plain, notDot, notDotDot, noColon, short, encoded⟩,
    fun ⟨ne, plain, notDot, notDotDot, noColon, short, encoded⟩ =>
      ⟨ne, by simpa using plain, notDot, notDotDot, noColon, short, encoded⟩⟩

/-- The path of `rest` below `root`. -/
def pathOf (root : ByteString) (rest : List ByteString) : ByteString := root ++ joined rest

variable {root name : ByteString} {rest : List ByteString}

theorem Clean.slash_notMem (h : Clean name) : slash ∉ name := by
  intro hslash
  have hplain := h.plain slash hslash
  simp [isSeparator] at hplain

theorem pathOf_nil (root : ByteString) : pathOf root [] = root := by simp [pathOf, joined]

theorem pathOf_append (root : ByteString) (rest : List ByteString) (name : ByteString) :
    pathOf root (rest ++ [name]) = pathOf root rest ++ slash :: name := by
  simp [pathOf, joined]

/-- The name of an entry of a directory. -/
structure Named (name : ByteString) : Prop where
  ne : name ≠ []
  noSlash : slash ∉ name
  notDot : name ≠ dot

theorem Clean.named (h : Clean name) : Named name := ⟨h.ne, h.slash_notMem, h.notDot⟩

theorem Named.getLast_ne (h : Named name) : name.getLast? ≠ some slash := by
  intro hlast
  exact h.noSlash (List.mem_of_getLast? hlast)

theorem pathOf_named (root : ByteString) (rest : List ByteString) (hroot : Named root)
    (hrest : ∀ n ∈ rest, Named n) :
    (pathOf root rest ≠ [] ∧ pathOf root rest ≠ dot) ∧
      (pathOf root rest).getLast? ≠ some slash := by
  cases rest using List.reverseRecOn with
  | nil =>
    rw [pathOf_nil]
    exact ⟨⟨hroot.ne, hroot.notDot⟩, hroot.getLast_ne⟩
  | append_singleton init name =>
    have hname : Named name := hrest name (by simp)
    rw [pathOf_append]
    refine ⟨⟨by simp, ?_⟩, ?_⟩
    · intro hdot
      have hslash : slash ∈ dot := by
        rw [← hdot]
        simp
      exact absurd hslash (by decide)
    · rw [List.append_cons, List.getLast?_append_of_ne_nil _ hname.ne]
      exact hname.getLast_ne

theorem combinePath_named (root : ByteString) (rest : List ByteString) (hroot : Named root)
    (hrest : ∀ n ∈ rest, Named n) (hname : Named name) :
    combinePath (pathOf root rest) name = pathOf root (rest ++ [name]) := by
  obtain ⟨hpath, hlast⟩ := pathOf_named root rest hroot hrest
  unfold combinePath
  rw [if_neg (not_or.mpr hpath), if_neg (not_or.mpr ⟨hname.ne, hname.notDot⟩), if_neg hlast,
    pathOf_append, List.append_assoc, List.singleton_append]

theorem combinePath_pathOf (root : ByteString) (rest : List ByteString) (hroot : Clean root)
    (hrest : ∀ n ∈ rest, Clean n) (hname : Clean name) :
    combinePath (pathOf root rest) name = pathOf root (rest ++ [name]) :=
  combinePath_named root rest hroot.named (fun n hn => (hrest n hn).named) hname.named

/-- The directory of a path, as it stands in the list of directories. -/
def directoryOf (root : ByteString) (rest : List ByteString) : ByteString :=
  pathOf root rest ++ [slash]

theorem combinePath_directoryOf (root : ByteString) (rest : List ByteString) (hroot : Clean root)
    (hrest : ∀ n ∈ rest, Clean n) (hname : Clean name) :
    combinePath (directoryOf root rest) name = pathOf root (rest ++ [name]) := by
  have hne := (pathOf_named root rest hroot.named fun n hn => (hrest n hn).named).1.1
  have hdot : directoryOf root rest ≠ dot := by
    intro heq
    have hlength := congrArg List.length heq
    have hpos := List.length_pos_iff.mpr hne
    have hone : (pathOf root rest ++ [slash]).length = 1 := hlength
    rw [List.length_append, List.length_singleton] at hone
    omega
  unfold combinePath
  rw [if_neg (not_or.mpr ⟨by simp [directoryOf], hdot⟩),
    if_neg (by simp [hname.ne, hname.notDot]), if_pos (by simp [directoryOf]), pathOf_append]
  simp [directoryOf]

theorem splitOn_pathOf (root : ByteString) (rest : List ByteString) (hroot : Clean root)
    (hrest : ∀ n ∈ rest, Clean n) : (pathOf root rest).splitOn slash = root :: rest := by
  rw [pathOf, ← intercalate_cons]
  refine List.splitOn_intercalate slash ?_ (List.cons_ne_nil _ _)
  intro n hn
  obtain rfl | hn := List.mem_cons.mp hn
  · exact hroot.slash_notMem
  · exact (hrest n hn).slash_notMem

theorem splitPath_pathOf (root : ByteString) (rest : List ByteString) (hroot : Clean root)
    (hrest : ∀ n ∈ rest, Clean n) : splitPath (pathOf root rest) = root :: rest := by
  unfold splitPath
  rw [splitOn_pathOf root rest hroot hrest]
  apply List.filter_eq_self.mpr
  intro n hn
  obtain rfl | hn := List.mem_cons.mp hn
  · simp [hroot.ne]
  · simp [(hrest n hn).ne]

theorem splitPath_directoryOf (root : ByteString) (rest : List ByteString) (hroot : Clean root)
    (hrest : ∀ n ∈ rest, Clean n) : splitPath (directoryOf root rest) = root :: rest := by
  have hsplit := splitPath_pathOf root rest hroot hrest
  unfold splitPath at hsplit ⊢
  rw [directoryOf, List.splitOn_append_cons_self]
  simpa using hsplit

theorem pathElements_pathOf (root : ByteString) (rest : List ByteString) (hroot : Clean root)
    (hrest : ∀ n ∈ rest, Clean n) : pathElements (pathOf root rest) = root :: rest := by
  simp [pathElements, splitPath_pathOf root rest hroot hrest]

theorem pathElements_directoryOf (root : ByteString) (rest : List ByteString) (hroot : Clean root)
    (hrest : ∀ n ∈ rest, Clean n) : pathElements (directoryOf root rest) = root :: rest := by
  simp [pathElements, splitPath_directoryOf root rest hroot hrest]

theorem Clean.dropWhile_append (h : Clean name) (more : ByteString) :
    (name.reverse ++ more).dropWhile isSeparator = name.reverse ++ more := by
  obtain ⟨c, others, hcons⟩ := List.exists_cons_of_ne_nil (List.reverse_ne_nil_iff.mpr h.ne)
  have hmem : c ∈ name := List.mem_reverse.mp (by rw [hcons]; exact List.mem_cons_self)
  rw [hcons, List.cons_append, List.dropWhile_cons_of_neg]
  simp [h.plain c hmem]

theorem reverse_pathOf (root : ByteString) (rest : List ByteString) (name : ByteString) :
    (pathOf root (rest ++ [name])).reverse =
      name.reverse ++ slash :: (pathOf root rest).reverse := by
  rw [pathOf_append]
  simp

theorem pathOf_ne_slash (root : ByteString) (rest : List ByteString) (hname : Clean name) :
    pathOf root (rest ++ [name]) ≠ [slash] := by
  intro heq
  rw [pathOf_append] at heq
  have hlength := congrArg List.length heq
  have hpos := List.length_pos_iff.mpr hname.ne
  simp only [List.length_append, List.length_cons, List.length_nil] at hlength
  omega

theorem parentPath_pathOf (root : ByteString) (rest : List ByteString) (hname : Clean name) :
    parentPath (pathOf root (rest ++ [name])) = directoryOf root rest := by
  unfold parentPath
  rw [if_neg (pathOf_ne_slash root rest hname), reverse_pathOf, hname.dropWhile_append,
    List.dropWhile_append_of_pos, List.dropWhile_cons_of_neg]
  · simp [directoryOf]
  · simp [isSeparator]
  · intro c hc
    simp [hname.plain c (List.mem_reverse.mp hc)]

theorem parentPath_name (h : Clean name) : parentPath name = [] := by
  unfold parentPath
  split
  · rfl
  · have hfirst := h.dropWhile_append []
    rw [List.append_nil] at hfirst
    have hall : name.reverse.dropWhile (!isSeparator ·) = [] := by
      apply List.dropWhile_eq_nil_iff.mpr
      intro c hc
      simp [h.plain c (List.mem_reverse.mp hc)]
    rw [hfirst, hall]
    rfl

theorem hasParentPath_name (h : Clean name) : hasParentPath name = false := by
  have hfirst := h.dropWhile_append []
  rw [List.append_nil] at hfirst
  unfold hasParentPath
  rw [hfirst]
  have hany : name.reverse.any isSeparator = false := by
    simpa using h.plain
  rw [hany, Bool.and_false]

theorem hasParentPath_pathOf (root : ByteString) (rest : List ByteString) (hname : Clean name) :
    hasParentPath (pathOf root (rest ++ [name])) = true := by
  unfold hasParentPath
  rw [reverse_pathOf, hname.dropWhile_append]
  simp [pathOf_ne_slash root rest hname, isSeparator]

theorem filename_append (front name : ByteString) (hne : name ≠ []) (hslash : slash ∉ name) :
    filename (front ++ slash :: name) = name := by
  have hlast : (front ++ slash :: name).getLast? ≠ some slash := by
    rw [List.append_cons, List.getLast?_append_of_ne_nil _ hne]
    intro hlast
    exact hslash (List.mem_of_getLast? hlast)
  have hreverse : (front ++ slash :: name).reverse = name.reverse ++ slash :: front.reverse := by
    simp
  unfold filename
  rw [if_neg hlast, hreverse, List.takeWhile_append_of_pos, List.takeWhile_cons_of_neg (by simp)]
  · simp
  · intro c hc
    have hplain : c ≠ slash := by
      rintro rfl
      exact hslash (List.mem_reverse.mp hc)
    simp [hplain]

theorem filename_pathOf (root : ByteString) (rest : List ByteString) (hname : Clean name) :
    filename (pathOf root (rest ++ [name])) = name := by
  rw [pathOf_append]
  exact filename_append _ name hname.ne hname.slash_notMem

theorem isComplete_pathOf (root : ByteString) (rest : List ByteString) (hroot : Clean root) :
    isComplete (pathOf root rest) = false := by
  obtain ⟨c, others, rfl⟩ := List.exists_cons_of_ne_nil hroot.ne
  have hplain := hroot.plain c (by simp)
  have hne : c ≠ slash := by
    rintro rfl
    simp [isSeparator] at hplain
  simp [isComplete, pathOf, hne]

theorem Clean.valid (h : Clean name) : validPathElement name = true := by
  obtain ⟨c, others, rfl⟩ := List.exists_cons_of_ne_nil h.ne
  simp [validPathElement, h.notDot, h.notDotDot, h.noColon, h.plain c]

theorem Clean.trim (h : Clean name) : trimPathElement name = name := by
  unfold trimPathElement
  exact if_neg (Nat.not_lt.mpr h.short)

/-- What a loop over clean names puts together. -/
theorem foldl_names (step : ByteString → ByteString → ByteString)
    (hstep : ∀ path name, Clean name → step path name = combinePath path name)
    (root : ByteString) (rest names : List ByteString) (hroot : Clean root)
    (hrest : ∀ n ∈ rest, Clean n) (hnames : ∀ n ∈ names, Clean n) :
    names.foldl step (pathOf root rest) = pathOf root (rest ++ names) := by
  induction names generalizing rest with
  | nil => simp
  | cons name names ih =>
    have hname := hnames name List.mem_cons_self
    rw [List.foldl_cons, hstep _ name hname, combinePath_pathOf root rest hroot hrest hname, ih]
    · rw [List.append_assoc, List.singleton_append]
    · intro n hn
      obtain hn | hn := List.mem_append.mp hn
      · exact hrest n hn
      · rw [List.mem_singleton.mp hn]
        exact hname
    · intro n hn
      exact hnames n (List.mem_cons_of_mem name hn)

/-- The same from the root itself. -/
theorem foldl_root (step : ByteString → ByteString → ByteString)
    (hstep : ∀ path name, Clean name → step path name = combinePath path name)
    (root : ByteString) (names : List ByteString) (hroot : Clean root)
    (hnames : ∀ n ∈ names, Clean n) : names.foldl step root = pathOf root names := by
  have hall := foldl_names step hstep root [] names hroot (by simp) hnames
  rwa [pathOf_nil, List.nil_append] at hall

theorem sanitizePath_pathOf (root : ByteString) (rest : List ByteString) (hroot : Clean root)
    (hrest : ∀ n ∈ rest, Clean n) : sanitizePath (pathOf root rest) = pathOf root rest := by
  unfold sanitizePath
  rw [pathElements_pathOf root rest hroot hrest, List.foldl_cons, if_pos hroot.valid, hroot.trim]
  have hfirst : combinePath [] root = root := if_pos (Or.inl rfl)
  rw [hfirst]
  refine foldl_root _ ?_ root rest hroot hrest
  intro path name hname
  rw [if_pos hname.valid, hname.trim]

theorem sanitizePath_name (h : Clean name) : sanitizePath name = name := by
  have hpath := sanitizePath_pathOf name [] h (by simp)
  rwa [pathOf_nil] at hpath

section Sequences

variable {c d e f : UInt8}

theorem verifyEncoding_ascii (rest : ByteString) (hascii : c &&& 0x80 = 0) :
    verifyEncoding (c :: rest) = (if c < 32 then underscore else c) :: verifyEncoding rest := by
  rw [verifyEncoding.eq_def]
  exact if_pos hascii

theorem verifyEncoding_two (rest : ByteString) (hhigh : ¬ c &&& 0x80 = 0)
    (htwo : c &&& 0xe0 = 0xc0 ∧ isContinuation d) :
    verifyEncoding (c :: d :: rest) = c :: d :: verifyEncoding rest := by
  rw [verifyEncoding.eq_def]
  simp only [if_neg hhigh, if_pos htwo]

theorem verifyEncoding_three (rest : ByteString) (hhigh : ¬ c &&& 0x80 = 0)
    (htwo : ¬ (c &&& 0xe0 = 0xc0 ∧ isContinuation d))
    (hthree : c &&& 0xf0 = 0xe0 ∧ isContinuation d ∧ isContinuation e) :
    verifyEncoding (c :: d :: e :: rest) = c :: d :: e :: verifyEncoding rest := by
  rw [verifyEncoding.eq_def]
  simp only [if_neg hhigh, if_neg htwo, if_pos hthree]

theorem verifyEncoding_four (rest : ByteString) (hhigh : ¬ c &&& 0x80 = 0)
    (htwo : ¬ (c &&& 0xe0 = 0xc0 ∧ isContinuation d))
    (hthree : ¬ (c &&& 0xf0 = 0xe0 ∧ isContinuation d ∧ isContinuation e))
    (hfour : c &&& 0xf8 = 0xf0 ∧ isContinuation d ∧ isContinuation e ∧ isContinuation f) :
    verifyEncoding (c :: d :: e :: f :: rest) = c :: d :: e :: f :: verifyEncoding rest := by
  rw [verifyEncoding.eq_def]
  simp only [if_neg hhigh, if_neg htwo, if_neg hthree, if_pos hfour]

/-- An underscore is no part of a longer sequence. -/
theorem ne_underscore (h : ¬ c &&& 0x80 = 0) : underscore ≠ c := by
  rintro rfl
  exact h rfl

end Sequences

/-- What is encoded well goes by as it is, whatever comes after it. -/
theorem verifyEncoding_append (front rest : ByteString) (h : verifyEncoding front = front) :
    verifyEncoding (front ++ rest) = front ++ verifyEncoding rest := by
  induction front using verifyEncoding.induct with
  | case1 => rfl
  | case2 c tail hascii ih =>
    rw [verifyEncoding_ascii tail hascii] at h
    obtain ⟨hc, htail⟩ := List.cons.inj h
    rw [List.cons_append, verifyEncoding_ascii _ hascii, hc, ih htail, List.cons_append]
  | case3 c hhigh =>
    rw [verifyEncoding.eq_def] at h
    simp only [if_neg hhigh] at h
    exact absurd (List.cons.inj h).1 (ne_underscore hhigh)
  | case4 c hhigh d tail htwo ih =>
    rw [verifyEncoding_two tail hhigh htwo] at h
    simp only [List.cons.injEq, true_and] at h
    simp only [List.cons_append, verifyEncoding_two _ hhigh htwo, ih h]
  | case5 c hhigh d htwo =>
    rw [verifyEncoding.eq_def] at h
    simp only [if_neg hhigh, if_neg htwo] at h
    exact absurd (List.cons.inj h).1 (ne_underscore hhigh)
  | case6 c hhigh d htwo e tail hthree ih =>
    rw [verifyEncoding_three tail hhigh htwo hthree] at h
    simp only [List.cons.injEq, true_and] at h
    simp only [List.cons_append, verifyEncoding_three _ hhigh htwo hthree, ih h]
  | case7 c hhigh d htwo e hthree =>
    rw [verifyEncoding.eq_def] at h
    simp only [if_neg hhigh, if_neg htwo, if_neg hthree] at h
    exact absurd (List.cons.inj h).1 (ne_underscore hhigh)
  | case8 c hhigh d htwo e hthree f tail hfour ih =>
    rw [verifyEncoding_four tail hhigh htwo hthree hfour] at h
    simp only [List.cons.injEq, true_and] at h
    simp only [List.cons_append, verifyEncoding_four _ hhigh htwo hthree hfour, ih h]
  | case9 c hhigh d htwo e hthree f tail hfour ih =>
    rw [verifyEncoding.eq_def] at h
    simp only [if_neg hhigh, if_neg htwo, if_neg hthree, if_neg hfour] at h
    exact absurd (List.cons.inj h).1 (ne_underscore hhigh)

theorem verifyEncoding_pathOf (root : ByteString) (rest : List ByteString) (hroot : Clean root)
    (hrest : ∀ n ∈ rest, Clean n) : verifyEncoding (pathOf root rest) = pathOf root rest := by
  induction rest using List.reverseRecOn with
  | nil =>
    rw [pathOf_nil]
    exact hroot.encoded
  | append_singleton init name ih =>
    have hinit : ∀ n ∈ init, Clean n := fun n hn => hrest n (List.mem_append_left [name] hn)
    have hname : Clean name := hrest name (by simp)
    have hslash : verifyEncoding (slash :: name) = slash :: name := by
      rw [verifyEncoding_ascii name (by decide), if_neg (by decide), hname.encoded]
    rw [pathOf_append, verifyEncoding_append _ _ (ih hinit), hslash]

end Clean

end Gingko.TorrentPaths
