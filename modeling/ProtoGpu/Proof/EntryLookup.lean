import ProtoGpu.Shim.PtxEntryValidate
import ProtoGpu.Proof.TextSearch
import ProtoGpu.Proof.ParserRun

/-!
# Entry lookup and the parser

The shim looks for a kernel with a scan of the whole text, the parser with a state machine over its
lines. The scan is cheap and takes every `.entry` at an identifier boundary for a kernel; the parser
wants a header line and a line that closes the kernel. On texts whose directives are all header
lines of the usual form, each closed before the next, the two name the same kernels.
-/

namespace ProtoGpu

open Throwing

open Json (isSpace)

/-! ### Directives -/

/-- `.entry` between `pre` and `post`, with no identifier character before it. -/
def Directive (s pre post : Text) : Prop :=
  s = pre ++ (entryKw ++ post) ∧ ∀ c ∈ pre.getLast?, isIdentChar c = false

/-- The identifier the scan reads behind `.entry`. -/
def entryWord (post : Text) : Text := (post.dropWhile isSpace).takeWhile isIdentChar

/-- The text has a directive for the name. -/
def Names (s name : Text) : Prop :=
  name ≠ [] ∧ ∃ pre post, Directive s pre post ∧ entryWord post = name

theorem isIdentChar_of_isSpace {c : Char} (hc : isSpace c) : isIdentChar c = false := by
  simp only [isSpace, Bool.or_eq_true, beq_iff_eq] at hc
  rcases hc with ((((rfl | rfl) | rfl) | rfl) | rfl) | rfl <;> decide

theorem not_isSpace_of_mem_entryKw {c : Char} (hc : c ∈ entryKw) : ¬isSpace c := by
  have hlist : entryKw = ['.', 'e', 'n', 't', 'r', 'y'] := by decide
  rw [hlist] at hc
  simp only [List.mem_cons, List.not_mem_nil, or_false] at hc
  rcases hc with rfl | rfl | rfl | rfl | rfl | rfl <;> decide

theorem newline_isSpace : isSpace '\n' := by decide

theorem entryKw_ne_nil : entryKw ≠ [] := by decide

/-- An identifier ends at a blank. -/
theorem takeIdent_append {word rest : Text} {c : Char} (hc : isSpace c) :
    (word ++ c :: rest).takeWhile isIdentChar = word.takeWhile isIdentChar := by
  have hstop : (c :: rest).takeWhile isIdentChar = [] :=
    List.takeWhile_cons_of_neg (by simp [isIdentChar_of_isSpace hc])
  rw [List.takeWhile_append, hstop, List.append_nil]
  split
  · next hlen => exact ((List.takeWhile_prefix isIdentChar).eq_of_length hlen).symm
  · rfl

theorem entryWord_append {post rest : Text} {c : Char} (hc : isSpace c)
    (hne : entryWord post ≠ []) : entryWord (post ++ c :: rest) = entryWord post := by
  have hword : (post.dropWhile isSpace).isEmpty = false := by
    rw [List.isEmpty_eq_false_iff]
    intro hnil
    exact hne (by rw [entryWord, hnil, List.takeWhile_nil])
  rw [entryWord, List.dropWhile_append, hword, if_neg (by decide), takeIdent_append hc, entryWord]

theorem entryWord_blanks {blanks : Text} (hblanks : ∀ x ∈ blanks, isSpace x) (post : Text) :
    entryWord (post ++ blanks) = entryWord post := by
  cases blanks with
  | nil => rw [List.append_nil]
  | cons c blanks =>
    rw [entryWord, List.dropWhile_append]
    split
    · next hnil =>
      rw [List.dropWhile_eq_nil_iff.mpr hblanks, entryWord, List.isEmpty_iff.mp hnil]
    · rw [takeIdent_append (hblanks c (by simp)), entryWord]

/-! ### Directives of a line -/

theorem directive_left {left s pre post : Text} (hleft : ∀ x ∈ left, isSpace x) :
    Directive (left ++ s) pre post ↔ ∃ pre', pre = left ++ pre' ∧ Directive s pre' post := by
  have hlast : ∀ c ∈ left.getLast?, isIdentChar c = false := fun c hc =>
    isIdentChar_of_isSpace (hleft c (List.mem_of_getLast? hc))
  constructor
  · rintro ⟨hs, hbound⟩
    obtain ⟨pre', rfl, ht⟩ := Occurrence.of_margin_left entryKw_ne_nil
      (fun x hx hkw => not_isSpace_of_mem_entryKw hkw (hleft x hx)) hs.symm
    refine ⟨pre', rfl, ht, ?_⟩
    intro c hc
    exact hbound c (by rw [List.getLast?_append, Option.mem_def.mp hc]; rfl)
  · rintro ⟨pre', rfl, hs, hbound⟩
    refine ⟨by rw [hs, List.append_assoc], ?_⟩
    intro c hc
    rw [List.getLast?_append] at hc
    cases hcase : pre'.getLast? with
    | none => exact hlast c (by simpa [hcase] using hc)
    | some d => exact hbound c (by simpa [hcase] using hc)

theorem directive_right {right s pre post : Text} (hright : ∀ x ∈ right, isSpace x) :
    Directive (s ++ right) pre post ↔ ∃ post', post = post' ++ right ∧ Directive s pre post' := by
  constructor
  · rintro ⟨hs, hbound⟩
    obtain ⟨post', rfl, ht⟩ := Occurrence.of_margin_right entryKw_ne_nil
      (fun x hx hkw => not_isSpace_of_mem_entryKw hkw (hright x hx)) hs.symm
    exact ⟨post', rfl, ht, hbound⟩
  · rintro ⟨post', rfl, hs, hbound⟩
    exact ⟨by rw [hs]; simp only [List.append_assoc], hbound⟩

theorem directive_newline {a b pre post : Text} :
    Directive (a ++ '\n' :: b) pre post ↔
      (∃ post', post = post' ++ '\n' :: b ∧ Directive a pre post') ∨
        ∃ pre', pre = a ++ '\n' :: pre' ∧ Directive b pre' post := by
  have hkw : '\n' ∉ entryKw := by decide
  constructor
  · rintro ⟨hs, hbound⟩
    rcases Occurrence.cases_sep hkw hs.symm with ⟨post', rfl, ha⟩ | ⟨pre', rfl, hb⟩
    · exact .inl ⟨post', rfl, ha, hbound⟩
    · refine .inr ⟨pre', rfl, hb, ?_⟩
      intro c hc
      apply hbound c
      rw [List.getLast?_append, List.getLast?_cons, Option.mem_def.mp hc]
      rfl
  · rintro (⟨post', rfl, ha, hbound⟩ | ⟨pre', rfl, hb, hbound⟩)
    · exact ⟨by rw [ha]; simp only [List.append_assoc], hbound⟩
    · refine ⟨by rw [hb]; simp only [List.append_assoc, List.cons_append], ?_⟩
      intro c hc
      rw [List.getLast?_append, List.getLast?_cons] at hc
      cases hcase : pre'.getLast? with
      | none =>
        obtain rfl : '\n' = c := by simpa [hcase] using hc
        decide
      | some d => exact hbound c (by simpa [hcase] using hc)

/-- Every directive is followed by an identifier. -/
def EndsNamed (s : Text) : Prop := ∀ pre post, Directive s pre post → entryWord post ≠ []

theorem EndsNamed.of_trim {line : Text} (hnamed : EndsNamed line.trim) : EndsNamed line := by
  obtain ⟨left, right, hline, hleft, hright⟩ := line.trim_margins
  intro pre post hdir
  rw [hline, directive_left hleft] at hdir
  obtain ⟨pre', -, hdir⟩ := hdir
  obtain ⟨post', rfl, hinner⟩ := (directive_right hright).mp hdir
  rw [entryWord_blanks hright]
  exact hnamed pre' post' hinner

theorem names_trim (line name : Text) : Names line name ↔ Names line.trim name := by
  obtain ⟨left, right, hline, hleft, hright⟩ := line.trim_margins
  refine and_congr_right fun _ => ?_
  constructor
  · rintro ⟨pre, post, hdir, hword⟩
    rw [hline, directive_left hleft] at hdir
    obtain ⟨pre', -, hdir⟩ := hdir
    obtain ⟨post', rfl, hinner⟩ := (directive_right hright).mp hdir
    exact ⟨pre', post', hinner, by rwa [entryWord_blanks hright] at hword⟩
  · rintro ⟨pre, post, hdir, hword⟩
    refine ⟨left ++ pre, post ++ right, ?_, by rwa [entryWord_blanks hright]⟩
    rw [hline, directive_left hleft]
    exact ⟨pre, rfl, (directive_right hright).mpr ⟨post, rfl, hdir⟩⟩

theorem names_newline {a b : Text} (hnamed : EndsNamed a) (name : Text) :
    Names (a ++ '\n' :: b) name ↔ Names a name ∨ Names b name := by
  rw [Names, Names, Names, ← and_or_left]
  refine and_congr_right fun _ => ?_
  constructor
  · rintro ⟨pre, post, hdir, hword⟩
    rcases directive_newline.mp hdir with ⟨post', rfl, hfirst⟩ | ⟨pre', -, hlater⟩
    · rw [entryWord_append newline_isSpace (hnamed pre post' hfirst)] at hword
      exact .inl ⟨pre, post', hfirst, hword⟩
    · exact .inr ⟨pre', post, hlater, hword⟩
  · rintro (⟨pre, post, hdir, hword⟩ | ⟨pre, post, hdir, hword⟩)
    · refine ⟨pre, post ++ '\n' :: b, directive_newline.mpr (.inl ⟨post, rfl, hdir⟩), ?_⟩
      rw [entryWord_append newline_isSpace (hnamed pre post hdir), hword]
    · exact ⟨a ++ '\n' :: pre, post, directive_newline.mpr (.inr ⟨pre, rfl, hdir⟩), hword⟩

/-- When no directive leaves its name to another line, the scan may go line by line. -/
theorem names_iff_lines {text : Text} (hnamed : ∀ line ∈ text.getlines, EndsNamed line.trim)
    (name : Text) : Names text name ↔ ∃ line ∈ text.getlines, Names line.trim name := by
  induction text using Text.lines_induct with
  | last a ha =>
    rw [Text.getlines_last ha]
    split
    · next hnil =>
      subst hnil
      simp [Names, Directive, entryKw_ne_nil]
    · simpa using names_trim a name
  | line a b ha ih =>
    rw [Text.getlines_line ha] at hnamed ⊢
    rw [names_newline (hnamed a (by simp)).of_trim, names_trim a,
      ih fun line hline => hnamed line (List.mem_cons_of_mem _ hline)]
    simp

/-! ### The scan -/

theorem drop_skipWs (s : Text) (i : Nat) : s.drop (skipWs s i) = (s.drop i).dropWhile isSpace := by
  calc s.drop (skipWs s i)
      = (s.drop i).drop ((s.drop i).takeWhile isSpace).length := by rw [skipWs, List.drop_drop]
    _ = ((s.drop i).takeWhile isSpace ++ (s.drop i).dropWhile isSpace).drop
          ((s.drop i).takeWhile isSpace).length := by rw [List.takeWhile_append_dropWhile]
    _ = (s.drop i).dropWhile isSpace := List.drop_left

theorem parseEntryNameAt_occurrence (pre post : Text) :
    parseEntryNameAt (pre ++ (entryKw ++ post)) pre.length =
      if pre.getLast?.any isIdentChar || (entryWord post).isEmpty then none
      else some (entryWord post) := by
  have hfits : ¬(pre ++ (entryKw ++ post)).length < pre.length + entryKw.length := by
    simp only [List.length_append]
    omega
  have hkw : Text.substr (pre ++ (entryKw ++ post)) pre.length entryKw.length = entryKw := by
    rw [Text.substr, List.drop_left, List.take_left]
  have hrest : (pre ++ (entryKw ++ post)).drop (pre.length + entryKw.length) = post := by
    rw [← List.drop_drop, List.drop_left, List.drop_left]
  have hlast : (0 < pre.length && ((pre ++ (entryKw ++ post))[pre.length - 1]?).any isIdentChar)
      = pre.getLast?.any isIdentChar := by
    cases pre using List.reverseRec with
    | nil => rfl
    | append_singleton pre c =>
      rw [List.getLast?_concat, List.length_append, List.getElem?_append_left (by simp)]
      simp
  have hword : ((pre ++ (entryKw ++ post)).drop
      (skipWs (pre ++ (entryKw ++ post)) (pre.length + entryKw.length))).takeWhile isIdentChar
        = entryWord post := by
    rw [drop_skipWs, hrest, entryWord]
  simp only [parseEntryNameAt, if_neg hfits, hkw, bne_self_eq_false, Bool.false_eq_true, if_false,
    hlast, hword]
  cases pre.getLast?.any isIdentChar <;> simp

theorem parseEntryNameAt_some {s name : Text} {pos : Nat}
    (hparse : parseEntryNameAt s pos = some name) :
    ∃ pre post, s = pre ++ (entryKw ++ post) ∧ pre.length = pos := by
  unfold parseEntryNameAt at hparse
  split at hparse
  · simp at hparse
  · next hfits =>
    split at hparse
    · simp at hparse
    · next hkw =>
      have hsub : (s.drop pos).take entryKw.length = entryKw := by
        simpa [Text.substr] using hkw
      refine ⟨s.take pos, s.drop (pos + entryKw.length), ?_, by simp; omega⟩
      conv_lhs => rw [← List.take_append_drop pos s,
        ← List.take_append_drop entryKw.length (s.drop pos), hsub, List.drop_drop]

theorem parseEntryNameAt_iff {s name : Text} {pos : Nat} :
    parseEntryNameAt s pos = some name ↔
      ∃ pre post, Directive s pre post ∧ pre.length = pos ∧ entryWord post = name ∧ name ≠ [] := by
  constructor
  · intro hparse
    obtain ⟨pre, post, rfl, rfl⟩ := parseEntryNameAt_some hparse
    rw [parseEntryNameAt_occurrence, Option.ite_none_left_eq_some, Option.some.injEq,
      Bool.or_eq_true, not_or, Bool.not_eq_true, List.isEmpty_iff] at hparse
    obtain ⟨⟨hbound, hne⟩, rfl⟩ := hparse
    exact ⟨pre, post, ⟨rfl, by simpa [Option.any_eq_false] using hbound⟩, rfl, rfl, hne⟩
  · rintro ⟨pre, post, ⟨rfl, hbound⟩, rfl, rfl, hne⟩
    have hany : pre.getLast?.any isIdentChar = false := by
      simpa [Option.any_eq_false] using hbound
    rw [parseEntryNameAt_occurrence, hany]
    simp [hne]

theorem containsEntryFrom_iff {s entry : Text} {passes pos : Nat}
    (hpasses : s.length < pos + passes) :
    containsEntryFrom s entry passes pos = true ↔
      ∃ q, pos ≤ q ∧ parseEntryNameAt s q = some entry := by
  have hoccurs : ∀ {q}, parseEntryNameAt s q = some entry →
      ∃ pre post, s = pre ++ (entryKw ++ post) ∧ pre.length = q := parseEntryNameAt_some
  induction passes generalizing pos with
  | zero =>
    simp only [containsEntryFrom, Bool.false_eq_true, false_iff, not_exists, not_and]
    intro q hq hparse
    obtain ⟨pre, post, rfl, rfl⟩ := hoccurs hparse
    simp only [List.length_append] at hpasses
    omega
  | succ passes ih =>
    rw [containsEntryFrom]
    cases hfind : s.findFrom entryKw pos with
    | none =>
      simp only [Bool.false_eq_true, false_iff, not_exists, not_and]
      intro q hq hparse
      obtain ⟨pre, post, hs, rfl⟩ := hoccurs hparse
      rw [Text.findFrom, Option.map_eq_none_iff, Text.find_eq_none_iff] at hfind
      apply hfind (pre.drop pos) post
      rw [hs, List.drop_append_of_le_length hq]
    | some first =>
      obtain ⟨j, hj, rfl⟩ := Option.map_eq_some_iff.mp hfind
      obtain ⟨⟨pre₀, post₀, hs₀, hlen₀⟩, hfirst⟩ := Text.find_eq_some_iff.mp hj
      have hpos : pos ≤ s.length := by
        by_contra hle
        have hnil : s.drop pos = [] := List.drop_eq_nil_of_le (by omega)
        rw [hnil] at hs₀
        simpa [entryKw_ne_nil] using hs₀.symm
      have hs : s = (s.take pos ++ pre₀) ++ (entryKw ++ post₀) := by
        rw [List.append_assoc, ← hs₀, List.take_append_drop]
      have hlen : (s.take pos ++ pre₀).length = j + pos := by
        rw [List.length_append, List.length_take_of_le hpos, hlen₀, Nat.add_comm]
      -- a later occurrence starts behind this one
      have hnext : ∀ q, pos ≤ q → parseEntryNameAt s q = some entry →
          q = j + pos ∨ j + pos + entryKw.length ≤ q := by
        intro q hq hparse
        obtain ⟨pre, post, hs', rfl⟩ := hoccurs hparse
        have hle : j + pos ≤ pre.length := by
          have hmin := hfirst (pre.drop pos) post
            (by rw [hs', List.drop_append_of_le_length hq])
          rw [List.length_drop] at hmin
          omega
        rcases Nat.eq_or_lt_of_le hle with heq | hlt
        · exact .inl heq.symm
        · refine .inr ?_
          have hdot : '.' ∉ "entry".toList := by decide
          rw [← hlen] at hlt ⊢
          exact Occurrence.no_overlap hdot (hs.symm.trans hs') hlt
      dsimp only
      split
      · next hhit =>
        rw [eq_self, true_iff]
        exact ⟨j + pos, by omega, by simpa using hhit⟩
      · next hmiss =>
        have hkw : 0 < entryKw.length := by decide
        have hleft : s.length < j + pos + entryKw.length + passes := by omega
        refine (ih hleft).trans ?_
        constructor
        · rintro ⟨q, hq, hparse⟩
          exact ⟨q, by omega, hparse⟩
        · rintro ⟨q, hq, hparse⟩
          rcases hnext q hq hparse with rfl | hle
          · exact absurd (by simpa using hparse) hmiss
          · exact ⟨q, hle, hparse⟩

/-- **The scan.** It accepts the entries some directive of the text names. -/
theorem ptxContainsEntryMvp_iff (ptxText entry : Text) :
    ptxContainsEntryMvp ptxText entry = true ↔ Names ptxText entry := by
  unfold ptxContainsEntryMvp
  split
  · next hnil => simp [Names, List.isEmpty_iff.mp hnil]
  · next hne =>
    rw [containsEntryFrom_iff (by omega), Names]
    constructor
    · rintro ⟨q, -, hparse⟩
      obtain ⟨pre, post, hdir, -, hword, hentry⟩ := parseEntryNameAt_iff.mp hparse
      exact ⟨hentry, pre, post, hdir, hword⟩
    · rintro ⟨hentry, pre, post, hdir, hword⟩
      exact ⟨pre.length, Nat.zero_le _,
        parseEntryNameAt_iff.mpr ⟨pre, post, hdir, rfl, hword, hentry⟩⟩

/-! ### Texts in the usual form -/

/-- `.entry` stands at the position, with no identifier character before it. -/
def directiveAt (t : Text) (pos : Nat) : Bool :=
  entryKw.isPrefixOf (t.drop pos) && !(t.take pos).getLast?.any isIdentChar

/-- What follows the identifier behind the first `.entry`. -/
def headerTail (t : Text) : Text :=
  (((headerRest t).dropWhile isSpace).dropWhile isIdentChar).dropWhile isSpace

/-- The first `.entry` of the line is a directive, followed by an identifier and then by a
parenthesis or the end of the line. -/
def UsualHeader (t : Text) : Prop :=
  (Text.find t entryKw).any (directiveAt t) = true ∧ entryWord (headerRest t) ≠ [] ∧
    (headerTail t = [] ∨ (headerTail t).head? = some '(')

/-- A header line is one of the usual form, and a directive is the first `.entry` of a header
line. -/
def EntryLine (t : Text) : Prop :=
  (isHeader t = true → UsualHeader t) ∧
    ∀ pos < t.length, directiveAt t pos = true →
      isHeader t = true ∧ Text.find t entryKw = some pos

/-- Every header is closed by a lone brace before the next header and before the end. -/
def closesEntries : Bool → List Text → Bool
  | inEntry, [] => !inEntry
  | inEntry, line :: lines =>
      if isHeader line.trim then !inEntry && closesEntries true lines
      else closesEntries (inEntry && line.trim != ['\x7d']) lines

structure EntryForm (text : Text) : Prop where
  lines : ∀ line ∈ text.getlines, EntryLine line.trim
  closed : closesEntries false text.getlines = true

instance (t : Text) : Decidable (UsualHeader t) :=
  inferInstanceAs (Decidable (_ ∧ _ ∧ (_ ∨ _)))

instance (t : Text) : Decidable (EntryLine t) :=
  inferInstanceAs (Decidable ((_ → _) ∧ ∀ pos < t.length, _ → _))

theorem directiveAt_iff {t : Text} {pos : Nat} :
    directiveAt t pos = true ↔ ∃ pre post, Directive t pre post ∧ pre.length = pos := by
  rw [directiveAt, Bool.and_eq_true, List.isPrefixOf_iff_prefix, Bool.not_eq_true']
  constructor
  · rintro ⟨⟨post, hpost⟩, hbound⟩
    have hpos : pos ≤ t.length := by
      by_contra hle
      rw [List.drop_eq_nil_of_le (by omega)] at hpost
      simp [entryKw_ne_nil] at hpost
    refine ⟨t.take pos, post, ⟨?_, by simpa [Option.any_eq_false] using hbound⟩, ?_⟩
    · rw [hpost, List.take_append_drop]
    · exact List.length_take_of_le hpos
  · rintro ⟨pre, post, ⟨rfl, hbound⟩, rfl⟩
    rw [List.drop_left, List.take_left]
    exact ⟨List.prefix_append _ _, by simpa [Option.any_eq_false] using hbound⟩

theorem headerRest_of_find {t pre post : Text} (ht : t = pre ++ (entryKw ++ post))
    (hfind : Text.find t entryKw = some pre.length) : headerRest t = post := by
  have hlen : pre.length + 6 = (pre ++ entryKw).length := by
    rw [List.length_append]
    rfl
  unfold headerRest
  rw [show ".entry".toList = entryKw from rfl, hfind]
  dsimp only
  rw [ht, hlen, ← List.append_assoc, List.drop_left]

theorem headerName_of_usual {t : Text} (husual : UsualHeader t) :
    headerName t = entryWord (headerRest t) := by
  obtain ⟨-, -, htail⟩ := husual
  have hident : ∀ x ∈ entryWord (headerRest t), isIdentChar x = true := fun x hx =>
    List.mem_takeWhile_imp hx
  have hword : ∀ x ∈ entryWord (headerRest t), isSpace x = false := by
    intro x hx
    by_contra hspace
    have hnot := isIdentChar_of_isSpace (by simpa using hspace)
    rw [hident x hx] at hnot
    cases hnot
  have hparen : ∀ x ∈ entryWord (headerRest t), (x != '(') = true := by
    intro x hx
    rw [bne_iff_ne]
    rintro rfl
    exact absurd (hident _ hx) (by decide)
  -- the word, the blanks behind it, and the rest of the line
  obtain ⟨blanks, hblanks, hsplit⟩ : ∃ blanks : Text, (∀ x ∈ blanks, isSpace x) ∧
      (headerRest t).dropWhile isSpace
        = entryWord (headerRest t) ++ (blanks ++ headerTail t) := by
    refine ⟨(((headerRest t).dropWhile isSpace).dropWhile isIdentChar).takeWhile isSpace,
      fun x hx => List.mem_takeWhile_imp hx, ?_⟩
    rw [headerTail, List.takeWhile_append_dropWhile, entryWord, List.takeWhile_append_dropWhile]
  have hblankParen : ∀ x ∈ blanks, (x != '(') = true := by
    intro x hx
    rw [bne_iff_ne]
    rintro rfl
    exact absurd (hblanks _ hx) (by decide)
  have htrim : Text.trim (headerRest t) =
      (entryWord (headerRest t) ++ (blanks ++ headerTail t)).rdropWhile isSpace := by
    rw [Text.trim, hsplit]
  unfold headerName
  dsimp only
  rw [htrim]
  rcases htail with htail | htail
  · have hkeep : (entryWord (headerRest t)).rdropWhile isSpace = entryWord (headerRest t) := by
      rw [List.rdropWhile_eq_self_iff]
      intro hne
      simp [hword _ (List.getLast_mem hne)]
    rw [htail, List.append_nil, Text.rdropWhile_append_of_all hblanks, hkeep,
      List.takeWhile_eq_self_iff.mpr hparen]
    have hnone : ∀ x ∈ ([] : Text), isSpace x := by simp
    simpa using Text.trim_word hword hnone
  · obtain ⟨rest, hrest⟩ : ∃ rest, headerTail t = '(' :: rest := by
      cases hcase : headerTail t with
      | nil => simp [hcase] at htail
      | cons c rest =>
        rw [hcase, List.head?_cons, Option.some.injEq] at htail
        exact ⟨rest, by rw [htail]⟩
    obtain ⟨kept, hkept⟩ : ∃ kept, ('(' :: rest).rdropWhile isSpace = '(' :: kept := by
      obtain ⟨dropped, hkept⟩ := List.rdropWhile_prefix isSpace ('(' :: rest)
      cases hcase : ('(' :: rest).rdropWhile isSpace with
      | nil =>
        have hopen := List.rdropWhile_eq_nil_iff.mp hcase '(' (by simp)
        exact absurd hopen (by decide)
      | cons c kept =>
        rw [hcase, List.cons_append, List.cons.injEq] at hkept
        exact ⟨kept, by rw [hkept.1]⟩
    rw [hrest, ← List.append_assoc, Text.rdropWhile_append_of_ne (by rw [hkept]; simp), hkept,
      List.append_assoc, List.takeWhile_append_of_pos hparen,
      List.takeWhile_append_of_pos hblankParen, List.takeWhile_cons_of_neg (by decide),
      List.append_nil]
    exact Text.trim_word hword hblanks

theorem EntryLine.endsNamed {t : Text} (hline : EntryLine t) : EndsNamed t := by
  intro pre post hdir
  have hpos : pre.length < t.length := by
    rw [hdir.1, List.length_append, List.length_append]
    have hkw : 0 < entryKw.length := by decide
    omega
  obtain ⟨hheader, hfind⟩ := hline.2 _ hpos (directiveAt_iff.mpr ⟨pre, post, hdir, rfl⟩)
  rw [← headerRest_of_find hdir.1 hfind]
  exact (hline.1 hheader).2.1

theorem EntryLine.names_iff {t : Text} (hline : EntryLine t) (name : Text) :
    Names t name ↔ isHeader t = true ∧ headerName t = name := by
  constructor
  · rintro ⟨hne, pre, post, hdir, rfl⟩
    have hpos : pre.length < t.length := by
      rw [hdir.1, List.length_append, List.length_append]
      have hkw : 0 < entryKw.length := by decide
      omega
    obtain ⟨hheader, hfind⟩ := hline.2 _ hpos (directiveAt_iff.mpr ⟨pre, post, hdir, rfl⟩)
    exact ⟨hheader, by
      rw [headerName_of_usual (hline.1 hheader), headerRest_of_find hdir.1 hfind]⟩
  · rintro ⟨hheader, rfl⟩
    have husual := hline.1 hheader
    obtain ⟨pos, hfind, hat⟩ := (Option.any_eq_true _ _).mp husual.1
    obtain ⟨pre, post, hdir, rfl⟩ := directiveAt_iff.mp hat
    rw [headerName_of_usual husual]
    exact ⟨husual.2.1, pre, post, hdir, by rw [headerRest_of_find hdir.1 hfind]⟩

/-- The names the headers of a text give, in order. -/
def headerNames (lines : List Text) : List Text :=
  ((lines.map Text.trim).filter isHeader).map headerName

theorem headerNames_cons_header {line : Text} {lines : List Text}
    (hheader : isHeader line.trim = true) :
    headerNames (line :: lines) = headerName line.trim :: headerNames lines := by
  simp [headerNames, hheader]

theorem headerNames_cons_other {line : Text} {lines : List Text}
    (hheader : isHeader line.trim = false) : headerNames (line :: lines) = headerNames lines := by
  simp [headerNames, hheader]

/-- When every header is closed, the kernels are those the headers name. -/
theorem parse_names {order : AliasOrder} {fileName : String} {st st' : ParseState}
    {lines : List Text} (hclosed : closesEntries st.inEntry lines = true)
    (hrun : lines.foldlM (parseLine order fileName) st = .ok st') :
    st'.kernels.map (·.name) =
      st.kernels.map (·.name)
        ++ ((if st.inEntry then [st.cur.name] else []) ++ headerNames lines) := by
  induction lines generalizing st with
  | nil =>
    obtain rfl : st = st' := by simpa [pure, Except.pure] using hrun
    simp only [closesEntries, Bool.not_eq_true'] at hclosed
    simp [hclosed, headerNames]
  | cons line lines ih =>
    obtain ⟨mid, hmid, hrest⟩ := foldlM_cons_ok.mp hrun
    rw [closesEntries] at hclosed
    cases parseLine_moves hmid with
    | skip hskip =>
      have hheader : isHeader line.trim = false := by
        rcases hskip with hnil | ⟨hheader, -⟩
        · rw [hnil]
          decide
        · exact hheader
      have hstays : (st.inEntry && line.trim != ['\x7d']) = st.inEntry := by
        rcases hskip with hnil | ⟨-, hin⟩
        · rw [hnil]
          simp
        · simp [hin]
      rw [hheader, hstays] at hclosed
      rw [ih (by simpa using hclosed) hrest, headerNames_cons_other hheader]
    | header hheader =>
      rw [hheader, if_pos rfl, Bool.and_eq_true, Bool.not_eq_true'] at hclosed
      rw [ih (by simpa [openKernel] using hclosed.2) hrest,
        headerNames_cons_header hheader, hclosed.1]
      simp [openKernel]
    | close k ht hin hclose =>
      have hheader : isHeader line.trim = false := by
        rw [ht]
        decide
      rw [hheader, ht, hin] at hclosed
      rw [ih (by simpa using hclosed) hrest, headerNames_cons_other hheader, hin]
      simp [closeKernel_name hclose]
    | body hne hheader ht hin hbody =>
      rw [hheader, hin, Bool.true_and, bne_iff_ne.mpr ht] at hclosed
      rw [ih (by simpa [hin] using hclosed) hrest, headerNames_cons_other hheader]
    | signature hne hheader ht hin hbody =>
      rw [hheader, hin, Bool.true_and, bne_iff_ne.mpr ht] at hclosed
      have hname : (signatureLine { st with lineNo := st.lineNo + 1 } line.trim).cur.name
          = st.cur.name := by
        unfold signatureLine
        dsimp only
        split <;> rfl
      rw [ih (by simpa [signatureLine, hin] using hclosed) hrest, hname,
        headerNames_cons_other hheader]
      rfl

/-! ### Agreement -/

theorem scan_agrees {order : AliasOrder} {fileName : String} {text : Text} {m : ModuleTokens}
    (hform : EntryForm text) (hparse : parsePtxTextTokens order text fileName = .ok m)
    (entry : Text) :
    ptxContainsEntryMvp text entry = true ↔ ∃ k ∈ m.kernels, k.name = entry := by
  obtain ⟨st, hrun, hm⟩ := bind_ok.mp hparse
  cases hm
  have hkernels : st.kernels.map (·.name) = headerNames text.getlines :=
    parse_names hform.closed hrun
  calc ptxContainsEntryMvp text entry = true
      ↔ Names text entry := ptxContainsEntryMvp_iff text entry
    _ ↔ ∃ line ∈ text.getlines, Names line.trim entry :=
        names_iff_lines (fun line hline => (hform.lines line hline).endsNamed) entry
    _ ↔ ∃ line ∈ text.getlines, isHeader line.trim = true ∧ headerName line.trim = entry := by
        refine exists_congr fun line => and_congr_right fun hline => ?_
        exact (hform.lines line hline).names_iff entry
    _ ↔ entry ∈ headerNames text.getlines := by
        simp only [headerNames, List.mem_map, List.mem_filter]
        grind
    _ ↔ ∃ k ∈ st.kernels, k.name = entry := by rw [← hkernels, List.mem_map]

theorem bindKernelByName_iff {m : ModuleTokens} {entry : Text} :
    (∃ k, bindKernelByName m entry = .ok k ∧ k.name = entry) ↔
      ∃ k ∈ m.kernels, k.name = entry := by
  unfold bindKernelByName
  cases hfind : m.kernels.find? fun k => k.name == entry with
  | none =>
    have hnone := List.find?_eq_none.mp hfind
    simpa using hnone
  | some k =>
    have hname : k.name = entry := by simpa using List.find?_some hfind
    simp only [Except.ok.injEq, exists_eq_left', hname, true_iff]
    exact ⟨k, List.mem_of_find?_eq_some hfind, hname⟩

theorem bindKernelByName_name {m : ModuleTokens} {entry : Text} {k : KernelTokens}
    (hbind : bindKernelByName m entry = .ok k) : k ∈ m.kernels ∧ k.name = entry := by
  unfold bindKernelByName at hbind
  split at hbind
  · next found hfind =>
    cases hbind
    exact ⟨List.mem_of_find?_eq_some hfind, by simpa using List.find?_some hfind⟩
  · cases hbind

/-- **Entry lookup.** On texts in the usual form the scan accepts an entry exactly when the parser
yields a kernel of that name; the text a launch chooses binds, unless the parser throws on it, and a
launch that finds no text has none that would bind. -/
theorem entry_lookup_agrees {order : AliasOrder} {texts : List Text}
    (hform : ∀ text ∈ texts, EntryForm text) (entry : Text) :
    (∀ text ∈ texts, ∀ fileName m, parsePtxTextTokens order text fileName = .ok m →
      (ptxContainsEntryMvp text entry = true ↔ ∃ k ∈ m.kernels, k.name = entry)) ∧
    (∀ text, choosePtx texts entry = some text →
      (∃ what, parsePtxTextTokens order text "<fatbin>" = .error what) ∨
        ∃ k, bindChosen order text entry = .ok k ∧ k.name = entry) ∧
    (choosePtx texts entry = none →
      ∀ text ∈ texts, ∀ k, bindChosen order text entry ≠ .ok k) := by
  refine ⟨?_, ?_, ?_⟩
  · intro text htext fileName m hparse
    exact scan_agrees (hform text htext) hparse entry
  · intro text hchoose
    have htext := List.mem_of_find?_eq_some hchoose
    have hscan : ptxContainsEntryMvp text entry = true :=
      List.find?_some (p := fun ptx => ptxContainsEntryMvp ptx entry) hchoose
    cases hparse : parsePtxTextTokens order text "<fatbin>" with
    | error what => exact .inl ⟨what, rfl⟩
    | ok m =>
      refine .inr ?_
      have hmem := (scan_agrees (hform text htext) hparse entry).mp hscan
      obtain ⟨k, hbind, hname⟩ := bindKernelByName_iff.mpr hmem
      exact ⟨k, by rw [bindChosen, hparse]; exact hbind, hname⟩
  · intro hnone text htext k hbind
    obtain ⟨m, hparse, hk⟩ := bind_ok.mp hbind
    obtain ⟨hmem, hname⟩ := bindKernelByName_name hk
    have hscan := (scan_agrees (hform text htext) hparse entry).mpr ⟨k, hmem, hname⟩
    exact List.find?_eq_none.mp hnone text htext hscan

def usualPtx : Text :=
  ".version 6.4\n.visible .entry k(\n  .param .u64 a\n)\n\x7b\n  ret;\n\x7d\n".toList

theorem usualPtx_form : EntryForm usualPtx where
  lines := by decide
  closed := by decide

theorem entry_lookup_agrees_usual :
    (∀ text ∈ [usualPtx], EntryForm text) ∧
      ∃ k, bindChosen .inserted usualPtx "k".toList = .ok k ∧ k.name = "k".toList := by
  have hform : ∀ text ∈ [usualPtx], EntryForm text := by
    intro text htext
    rw [List.mem_singleton.mp htext]
    exact usualPtx_form
  refine ⟨hform, ?_⟩
  have hchoose : choosePtx [usualPtx] "k".toList = some usualPtx := by rfl
  rcases (entry_lookup_agrees hform "k".toList).2.1 usualPtx hchoose with ⟨what, hthrow⟩ | hbound
  · have hparse :
        (parsePtxTextTokens .inserted usualPtx "<fatbin>").toOption.isSome = true := by rfl
    rw [hthrow] at hparse
    cases hparse
  · exact hbound

def oneLinePtx : Text := ".visible .entry only_a() \x7b ret; \x7d\n".toList

def noBlankPtx : Text := ".visible.entry k()\n\x7b\nret;\n\x7d\n".toList

/-- A kernel with its body on the header line is found and never closed; a header without a blank
before `.entry` is parsed and not found. -/
theorem scan_and_parser_differ :
    (ptxContainsEntryMvp oneLinePtx "only_a".toList = true ∧
      parsePtxTextTokens .inserted oneLinePtx "<fatbin>" = .ok { kernels := [] }) ∧
    (ptxContainsEntryMvp noBlankPtx "k".toList = false ∧
      ∃ k, bindChosen .inserted noBlankPtx "k".toList = .ok k ∧ k.name = "k".toList) := by
  refine ⟨⟨by decide, by rfl⟩, by decide, ?_⟩
  let ret : TokenizedPtxInst :=
    { ptxOpcode := "ret".toList, dbg := some { file := "<fatbin>", line := 3, column := 1 } }
  exact ⟨{ name := "k".toList, insts := [ret] }, by rfl, rfl⟩

end ProtoGpu
