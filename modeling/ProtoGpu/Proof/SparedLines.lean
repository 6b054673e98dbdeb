import ProtoGpu.Proof.LineReadings
import ProtoGpu.Shim.PtxClean

/-!
# Lines that the cleaning spares

The cleaning of a PTX text edits lines by what they look like. It leaves a line alone that has
nothing to mend, and of any other line the beginning up to the first thing to mend. What the parser
takes from a line is often decided by its beginning: of a directive, a comment, a line outside the
kernels or a header nothing more is read.
-/

namespace ProtoGpu

open Json (isSpace)

/-! ### Characters of a cleaned line -/

theorem mem_sanitizeFrom {c : Char} {lastUs : Bool} {tok : Text}
    (hc : c ∈ sanitizeFrom lastUs tok) : c ∈ tok ∨ c = '_' := by
  induction tok generalizing lastUs with
  | nil => simp [sanitizeFrom] at hc
  | cons d tok ih =>
    rw [sanitizeFrom] at hc
    split at hc
    · rcases List.mem_cons.mp hc with rfl | hc
      · exact .inl (List.mem_cons_self ..)
      · exact (ih hc).imp_left (List.mem_cons_of_mem _)
    · split at hc
      · exact (ih hc).imp_left (List.mem_cons_of_mem _)
      · rcases List.mem_cons.mp hc with rfl | hc
        · exact .inr rfl
        · exact (ih hc).imp_left (List.mem_cons_of_mem _)

theorem mem_sanitizeIdentifierToken {c : Char} {tok : Text}
    (hc : c ∈ sanitizeIdentifierToken tok) : c ∈ tok ∨ c = '_' := by
  unfold sanitizeIdentifierToken at hc
  dsimp only at hc
  split at hc
  · exact .inr (List.mem_singleton.mp hc)
  · exact mem_sanitizeFrom hc

/-- The characters that the cleaning writes. -/
def writtenChars : Text := ".visible_ u6432".toList

section Unwritten
variable {d : Char} {t : Text} (hd : d ∉ writtenChars) (hline : d ∉ t)
include hd hline

theorem not_mem_fixVisible : d ∉ fixVisible t := by
  have hleft : d ∉ t.takeWhile isSpace := fun h => hline ((List.takeWhile_prefix _).subset h)
  have hright : d ∉ t.dropWhile isSpace := fun h => hline ((List.dropWhile_suffix _).subset h)
  unfold fixVisible
  dsimp only
  split
  · intro hmem
    rcases List.mem_append.mp hmem with hmem | hmem
    · rcases List.mem_append.mp hmem with hmem | hmem
      · exact hleft hmem
      · exact hd (List.mem_append_left "_ u6432".toList hmem)
    · exact hright (List.mem_of_mem_drop hmem)
  · split
    · intro hmem
      rcases List.mem_append.mp hmem with hmem | hmem
      · exact hleft hmem
      · rcases List.mem_cons.mp hmem with rfl | hmem
        · exact hd List.mem_cons_self
        · exact hright hmem
    · exact hline

theorem not_mem_fixTypes : d ∉ fixTypes t := by
  have hwide : ".u64 ".toList ⊆ writtenChars := by decide
  have hnarrow : ".u32 ".toList ⊆ writtenChars := by decide
  intro hmem
  rcases Text.mem_replaceFrom hmem with hmem | hmem
  · rcases Text.mem_replaceFrom hmem with hmem | hmem
    · exact hline hmem
    · exact hd (hwide hmem)
  · exact hd (hnarrow hmem)

theorem not_mem_brackets (passes lb : Nat) : d ∉ sanitizeBracketsFrom passes lb t := by
  induction passes generalizing lb t with
  | zero => exact hline
  | succ passes ih =>
    rw [sanitizeBracketsFrom]
    split
    · exact hline
    · split
      · exact hline
      · apply ih
        intro hmem
        rcases List.mem_append.mp hmem with hmem | hmem
        · rcases List.mem_append.mp hmem with hmem | hmem
          · exact hline (List.mem_of_mem_take hmem)
          · rcases mem_sanitizeIdentifierToken hmem with hmem | rfl
            · exact hline (List.mem_of_mem_drop (List.mem_of_mem_take hmem))
            · exact hd (by decide)
        · exact hline (List.mem_of_mem_drop hmem)

end Unwritten

theorem sanitizeFrom_ident {tok : Text} (htok : ∀ c ∈ tok, isIdentChar c = true) (lastUs : Bool) :
    sanitizeFrom lastUs tok = tok := by
  induction tok generalizing lastUs with
  | nil => rfl
  | cons c tok ih =>
    rw [List.forall_mem_cons] at htok
    rw [sanitizeFrom, if_pos htok.1, ih htok.2]

theorem sanitizeIdentifierToken_ident {tok : Text} (hne : tok ≠ [])
    (htok : ∀ c ∈ tok, isIdentChar c = true) : sanitizeIdentifierToken tok = tok := by
  unfold sanitizeIdentifierToken
  rw [sanitizeFrom_ident htok]
  simp [hne]

/-- The name behind a type is an identifier before it is sanitized. -/
theorem sanitizeTypedName_eq (t : Text) : sanitizeTypedName t = t := by
  unfold sanitizeTypedName
  split
  · rfl
  · next tp _ =>
    dsimp only
    split
    · rfl
    · next hne =>
      generalize tp + 4 + _ + _ = j at hne ⊢
      have hident : ∀ c ∈ (t.drop j).takeWhile isIdentChar, isIdentChar c = true :=
        fun c hc => List.mem_takeWhile_imp hc
      rw [List.isEmpty_iff] at hne
      rw [sanitizeIdentifierToken_ident hne hident, List.append_assoc]
      have hrest : (t.drop j).takeWhile isIdentChar
          ++ (t.drop j).drop ((t.drop j).takeWhile isIdentChar).length = t.drop j :=
        (List.prefix_append_drop (List.takeWhile_prefix _)).symm
      rw [List.drop_drop] at hrest
      rw [hrest, List.take_append_drop]

theorem not_mem_cleanLine {d : Char} {t : Text} (hd : d ∉ writtenChars) (hline : d ∉ t) :
    d ∉ cleanLine t := by
  have hfixed := not_mem_fixTypes hd (not_mem_fixVisible hd hline)
  unfold cleanLine
  dsimp only
  split
  · rw [sanitizeTypedName_eq]
    exact not_mem_brackets hd hfixed _ _
  · exact hfixed

/-! ### Lines that are left alone -/

/-- What stands between brackets is an identifier. -/
def BracketsNamed (t : Text) : Prop :=
  ∀ pre inside post, t = pre ++ '[' :: (inside ++ ']' :: post) → ']' ∉ inside →
    inside ≠ [] ∧ ∀ c ∈ inside, isIdentChar c = true

/-- The line does not begin with a bare `visible`, has no percent sign behind a type and, if it
names the parameter space, has only identifiers in brackets. -/
structure Untouched (t : Text) : Prop where
  dollar : Text.startsWith (t.dropWhile isSpace) "$visible".toList = false
  bare : Text.startsWith (t.dropWhile isSpace) "visible".toList = false
  wide : Text.contains t ".u64%".toList = false
  narrow : Text.contains t ".u32%".toList = false
  brackets : Text.contains t ".param".toList = true → BracketsNamed t

theorem findFrom_some {t : Text} {c : Char} {pos i : Nat} (hfind : t.findFrom [c] pos = some i) :
    ∃ skipped post, t.drop pos = skipped ++ c :: post ∧ c ∉ skipped ∧ i = pos + skipped.length := by
  obtain ⟨j, hj, rfl⟩ := Option.map_eq_some_iff.mp hfind
  obtain ⟨⟨skipped, post, hsplit, rfl⟩, hfirst⟩ := Text.find_eq_some_iff.mp hj
  refine ⟨skipped, post, hsplit, ?_, Nat.add_comm ..⟩
  intro hmem
  obtain ⟨a, b, rfl⟩ := List.append_of_mem hmem
  have hle := hfirst a (b ++ c :: post) (by rw [hsplit]; simp)
  rw [List.length_append, List.length_cons] at hle
  omega

/-- A pass over a bracket that closes. -/
theorem sanitizeBracketsFrom_step (passes lb : Nat) (t : Text) :
    sanitizeBracketsFrom (passes + 1) lb t = t ∨
      ∃ before inside behind lb', t = before ++ '[' :: (inside ++ ']' :: behind) ∧ ']' ∉ inside ∧
        sanitizeBracketsFrom (passes + 1) lb t
          = sanitizeBracketsFrom passes lb'
              (before ++ '[' :: (sanitizeIdentifierToken inside ++ ']' :: behind)) := by
  rw [sanitizeBracketsFrom]
  split
  · exact .inl rfl
  · next lb' hopen =>
    split
    · exact .inl rfl
    · next rb hclose =>
      obtain ⟨skipped, rest, hrest, -, rfl⟩ := findFrom_some hopen
      have hbehind : t.drop (lb + skipped.length + 1) = rest := by
        rw [Nat.add_assoc, ← List.drop_drop, hrest, ← List.drop_drop, List.drop_left]
        rfl
      obtain ⟨inside, behind, hinside, hfirst, rfl⟩ := findFrom_some hclose
      have hopened : t.take (lb + skipped.length + 1) = t.take lb ++ (skipped ++ ['[']) := by
        rw [Nat.add_assoc, List.take_add, hrest, List.append_cons]
        exact congrArg (t.take lb ++ ·) (List.take_left' (by simp))
      have hline : t = (t.take lb ++ skipped) ++ '[' :: (inside ++ ']' :: behind) := by
        rw [← hinside, hbehind, List.append_assoc, ← hrest, List.take_append_drop]
      have hsub : t.substr (lb + skipped.length + 1)
          (lb + skipped.length + 1 + inside.length - (lb + skipped.length + 1)) = inside := by
        rw [Text.substr, hinside, Nat.add_sub_cancel_left, List.take_left]
      refine .inr ⟨t.take lb ++ skipped, inside, behind,
        lb + skipped.length + 1 + inside.length + 1, hline, hfirst, ?_⟩
      dsimp only
      rw [hsub, hopened, ← List.drop_drop, hinside, List.drop_left]
      simp only [List.append_assoc, List.cons_append, List.nil_append]

theorem sanitizeBracketsFrom_named {t : Text} (hnamed : BracketsNamed t) (passes lb : Nat) :
    sanitizeBracketsFrom passes lb t = t := by
  induction passes generalizing lb with
  | zero => rfl
  | succ passes ih =>
    rcases sanitizeBracketsFrom_step passes lb t with
      hsame | ⟨before, inside, behind, lb', hline, hfirst, hstep⟩
    · exact hsame
    · obtain ⟨hne, hident⟩ := hnamed before inside behind hline hfirst
      rw [hstep, sanitizeIdentifierToken_ident hne hident, ← hline]
      exact ih lb'

theorem cleanLine_untouched {t : Text} (ht : Untouched t) : cleanLine t = t := by
  have hvisible : fixVisible t = t := by
    rw [fixVisible, ht.dollar, ht.bare]
    rfl
  have htypes : fixTypes t = t := by
    rw [fixTypes, Text.replace, Text.replace, Text.replaceFrom_of_not_contains ht.wide,
      Text.replaceFrom_of_not_contains ht.narrow]
  unfold cleanLine
  rw [hvisible, htypes]
  dsimp only
  split
  · next hparam =>
    rw [sanitizeTypedName_eq, sanitizeBrackets, sanitizeBracketsFrom_named (ht.brackets hparam)]
  · rfl

theorem contains_fixTypes {t w : Text} (hw : ' ' ∉ w) (ht : Text.contains (fixTypes t) w = true) :
    Text.contains t w = true := by
  have hrefl (c : Char) : c = c ∨ c = ' ' := .inl rfl
  have hback {s t : Text} (hst : List.Forall₂ (fun c d => d = c ∨ d = ' ') s t) :
      Text.contains t w = true → Text.contains s w = true := by
    apply Text.contains_of_forall₂ hst
    intro c d hcd hd
    exact hcd.resolve_right fun hblank => hw (hblank ▸ hd)
  have hedit (n : Char) (m : Char) : List.Forall₂ (fun c d => d = c ∨ d = ' ')
      ['.', 'u', n, m, '%'] ['.', 'u', n, m, ' '] :=
    .cons (.inl rfl) (.cons (.inl rfl) (.cons (.inl rfl) (.cons (.inl rfl)
      (.cons (.inr rfl) .nil))))
  apply hback (Text.replaceFrom_forall₂ hrefl (by decide) (hedit '6' '4') 0 t)
  exact hback (Text.replaceFrom_forall₂ hrefl (by decide) (hedit '3' '2') 0 _) ht

/-! ### The beginning of a line -/

/-- None of the texts begins with the other, so that what stands behind the first does not make it
begin with the second. -/
def Apart (x w : Text) : Prop := ¬ x <+: w ∧ ¬ w <+: x

instance (x w : Text) : Decidable (Apart x w) := inferInstanceAs (Decidable (_ ∧ _))

theorem Apart.not_pfx {x w t : Text} (hapart : Apart x w) (hx : x <+: t) : ¬ w <+: t := by
  intro hw
  exact (List.prefix_or_prefix_of_prefix hx hw).elim hapart.1 hapart.2

theorem Apart.startsWith {x w t : Text} (hapart : Apart x w) (hx : x <+: t) :
    Text.startsWith t w = false := by
  rw [Text.startsWith, Bool.eq_false_iff, ne_eq, List.isPrefixOf_iff_prefix]
  exact hapart.not_pfx hx

theorem Apart.ne_nil {x w : Text} (hapart : Apart x w) : x ≠ [] := by
  rintro rfl
  exact hapart.1 List.nil_prefix

/-- Every bracket that opens in the text closes there, behind an identifier. -/
def bracketsClosed : Text → Bool
  | [] => true
  | c :: t =>
      (c != '[' || (!(t.takeWhile isIdentChar).isEmpty
        && (t.dropWhile isIdentChar).head? == some ']')) && bracketsClosed t

theorem bracketsClosed_opened {before behind : Text}
    (hclosed : bracketsClosed (before ++ '[' :: behind) = true) :
    ∃ name rest, behind = name ++ ']' :: rest ∧ name ≠ [] ∧ ∀ c ∈ name, isIdentChar c = true := by
  induction before with
  | nil =>
    simp only [List.nil_append, bracketsClosed, bne_self_eq_false, Bool.false_or, Bool.and_eq_true,
      Bool.not_eq_true', List.isEmpty_eq_false_iff, beq_iff_eq] at hclosed
    obtain ⟨⟨hname, hhead⟩, -⟩ := hclosed
    obtain ⟨rest, hrest⟩ := List.head?_eq_some_iff.mp hhead
    refine ⟨behind.takeWhile isIdentChar, rest, ?_, hname, fun c hc => List.mem_takeWhile_imp hc⟩
    rw [← hrest, List.takeWhile_append_dropWhile]
  | cons c before ih =>
    rw [List.cons_append, bracketsClosed, Bool.and_eq_true] at hclosed
    exact ih hclosed.2

/-- The line begins with the text, and the cleaning changes the line behind it at most: the text
does not begin with a bare `visible`, has no percent sign behind a type and, if the line names the
parameter space, has only identifiers in brackets, all closed. -/
structure KeptPart (line code : Text) : Prop where
  begins : code <+: line
  dollar : Apart code.trim "$visible".toList
  bare : Apart code.trim "visible".toList
  wide : Text.contains code ".u64%".toList = false
  narrow : Text.contains code ".u32%".toList = false
  brackets : Text.contains line ".param".toList = true → bracketsClosed code = true

theorem pfx_sanitizeBrackets {code : Text} (hclosed : bracketsClosed code = true) (passes lb : Nat)
    {t : Text} (ht : code <+: t) : code <+: sanitizeBracketsFrom passes lb t := by
  induction passes generalizing lb t with
  | zero => exact ht
  | succ passes ih =>
    rcases sanitizeBracketsFrom_step passes lb t with
      hsame | ⟨before, inside, behind, lb', hline, hfirst, hstep⟩
    · rw [hsame]
      exact ht
    · rw [hstep]
      apply ih
      have hopened (rest : Text) : before ++ ['['] <+: before ++ '[' :: rest :=
        ⟨rest, by simp⟩
      rcases List.prefix_or_prefix_of_prefix ht (hline ▸ hopened _) with hin | hin
      · exact hin.trans (hopened _)
      · -- the bracket opens in the text that is kept, and closes there
        obtain ⟨behind', rfl⟩ := hin
        rw [List.append_assoc] at hclosed
        obtain ⟨name, rest, rfl, hne, hident⟩ := bracketsClosed_opened hclosed
        have hname : ']' ∉ name := fun hmem => absurd (hident ']' hmem) (by decide)
        rw [hline, List.append_assoc, List.prefix_append_right_inj, List.cons_append,
          List.nil_append, List.prefix_cons_inj] at ht
        obtain ⟨more, hmore⟩ := ht
        rw [List.append_assoc] at hmore
        have hsame : name = inside := by
          have htake := congrArg (List.takeWhile (· != ']')) hmore
          rwa [List.cons_append, Text.takeWhile_ne_cons hname, Text.takeWhile_ne_cons hfirst]
            at htake
        subst hsame
        rw [sanitizeIdentifierToken_ident hne hident, ← hline]
        exact hline ▸ ⟨more, by simp [← hmore]⟩

theorem trim_pfx_dropWhile (s : Text) : s.trim <+: s.dropWhile isSpace :=
  List.rdropWhile_prefix isSpace _

theorem KeptPart.cleanLine {line code : Text} (hkept : KeptPart line code) :
    code <+: cleanLine line := by
  have hbegin : code.trim <+: line.dropWhile isSpace := by
    obtain ⟨rest, hrest⟩ := hkept.begins
    rw [← hrest]
    exact (Text.trim_pfx_append code rest).trans (trim_pfx_dropWhile _)
  have hvisible : fixVisible line = line := by
    rw [fixVisible, hkept.dollar.startsWith hbegin, hkept.bare.startsWith hbegin]
    rfl
  have htypes : code <+: fixTypes line :=
    Text.pfx_replaceFrom (w := ".u32".toList) hkept.narrow
      (Text.pfx_replaceFrom (w := ".u64".toList) hkept.wide hkept.begins)
  unfold ProtoGpu.cleanLine
  rw [hvisible]
  dsimp only
  split
  · next hparam =>
    rw [sanitizeTypedName_eq]
    exact pfx_sanitizeBrackets (hkept.brackets (contains_fixTypes (by decide) hparam)) _ _ htypes
  · exact htypes

/-! ### Readings that the beginning decides -/

/-- What the parser takes from a line, where it stands, is decided when it begins with the text:
outside the kernels by no header; in a signature by no header, closing brace and parameter; in a
body by a directive that declares no register; anywhere by a comment. -/
inductive Settled : LineMode → Text → Prop
  | outside {x : Text} : Apart x ".visible".toList → Settled .outside x
  | signature {x : Text} : Apart x ".visible".toList → Apart x ['\x7d'] → Apart x ".param".toList →
      Settled .signature x
  | directive {x : Text} : Apart x ".visible".toList → Apart x ".reg".toList →
      isDirective x = true → Settled .body x
  | comment {mode : LineMode} {x : Text} : Apart x ".visible".toList →
      Text.contains x "//".toList = true → Settled mode x

section Begins
variable {x t : Text} (hx : x <+: t)
include hx

theorem not_isHeader_of_apart (hvisible : Apart x ".visible".toList) : isHeader t = false := by
  rw [isHeader, hvisible.startsWith hx]
  rfl

theorem isEmpty_of_pfx (hne : x ≠ []) : t.isEmpty = false := by
  rw [List.isEmpty_eq_false_iff]
  rintro rfl
  exact hne (List.prefix_nil.mp hx)

theorem ne_brace_of_apart (hbrace : Apart x ['\x7d']) : (t == ['\x7d']) = false := by
  rw [beq_eq_false_iff_ne]
  rintro rfl
  exact hbrace.not_pfx hx List.prefix_rfl

theorem ne_brace_of_directive (hdirective : isDirective x = true) : (t == ['\x7d']) = false := by
  have hne : x ≠ [] := by
    rintro rfl
    exact absurd hdirective (by decide)
  rw [beq_eq_false_iff_ne]
  rintro rfl
  rw [isDirective, Text.head_of_pfx hx hne] at hdirective
  exact absurd hdirective (by decide)

theorem ne_brace_of_comment (hcomment : Text.contains x "//".toList = true) :
    (t == ['\x7d']) = false := by
  rw [beq_eq_false_iff_ne]
  rintro rfl
  obtain ⟨pre, post, rfl⟩ := Text.contains_iff.mp hcomment
  have hslash : '/' ∈ ['\x7d'] := hx.subset (List.mem_append_right _ (by simp))
  exact absurd hslash (by decide)

/-- The first word of the line is not `.param`. -/
theorem parseParamDecl_of_apart (hparam : Apart x ".param".toList)
    (hhead : ∀ c ∈ t.head?, isSpace c = false) : parseParamDecl t = none := by
  have hcut : t.cutComment.trim <+: t :=
    (Text.trim_pfx (Text.head_not_space (Text.cutComment_pfx t) hhead)).trans
      (Text.cutComment_pfx t)
  unfold parseParamDecl
  dsimp only
  split
  · rfl
  · cases hwords : t.cutComment.trim.splitWs with
    | nil => rfl
    | cons w words =>
      have hw : w <+: t := (Text.splitWs_pfx (Text.head_not_space hcut hhead) hwords).trans hcut
      have hne : (w != ".param".toList) = true := by
        rw [bne_iff_ne]
        rintro rfl
        exact hparam.not_pfx hx hw
      cases words with
      | nil => rfl
      | cons typeTok words =>
        cases words with
        | nil => rfl
        | cons name words => exact if_pos hne

theorem bodyRole_of_directive (hreg : Apart x ".reg".toList) (hdirective : isDirective x = true) :
    bodyRole (0, t) = none := by
  have hne : x ≠ [] := hreg.ne_nil
  obtain ⟨c, hc⟩ : ∃ c, x.head? = some c := by
    rw [← Option.isSome_iff_exists, List.isSome_head?]
    exact hne
  have hplain : isSpace c = false ∧ c ≠ '/' := by
    simp only [isDirective, hc, Bool.or_eq_true, beq_iff_eq, Option.some.injEq] at hdirective
    rcases hdirective with rfl | rfl <;> exact ⟨by decide, by decide⟩
  have hcut : t.cutComment.head? = some c :=
    Text.cutComment_head ((Text.head_of_pfx hx hne).symm.trans hc) hplain.2
  have hbody : (bodyText (0, t)).head? = some c := Text.trim_cons_head hcut hplain.1
  have hpre : bodyText (0, t) <+: t :=
    (Text.trim_pfx (by rw [hcut]; simpa using hplain.1)).trans (Text.cutComment_pfx t)
  have hnoReg : (bodyText (0, t)).startsWith ".reg".toList = false := by
    rw [Text.startsWith, Bool.eq_false_iff, ne_eq, List.isPrefixOf_iff_prefix]
    intro hfound
    exact hreg.not_pfx hx (hfound.trans hpre)
  have hskip : isDirective (bodyText (0, t)) = true := by
    rw [isDirective, hbody, ← hc]
    exact hdirective
  unfold bodyRole
  dsimp only
  rw [hnoReg, hskip]
  split <;> rfl

end Begins

section Comments
variable {s t : Text} (hcut : s.cutComment = t.cutComment)
include hcut

theorem parseParamDecl_cut : parseParamDecl s = parseParamDecl t := by
  rw [parseParamDecl, parseParamDecl, hcut]

theorem readBody_cut : readBody s = readBody t := by
  have hbody : bodyText (0, s) = bodyText (0, t) := congrArg Text.trim hcut
  have hrole : bodyRole (0, s) = bodyRole (0, t) := by
    unfold bodyRole regDecl
    rw [hbody]
  rw [readBody, readBody, hrole]

theorem readSignature_cut (hhead : s.head? = t.head?) : readSignature s = readSignature t := by
  rw [readSignature, readSignature, parseParamDecl_cut hcut, hhead]

end Comments

/-- What the parser takes from a line whose reading the text decides. -/
def settledReading (mode : LineMode) (x : Text) : LineReading :=
  match mode with
  | .outside => .nothing
  | .signature => readSignature x
  | .body => readBody x

theorem Settled.read {mode : LineMode} {x line : Text} (hsettled : Settled mode x)
    (hx : x <+: line.trim) : readLine mode line = settledReading mode x := by
  have hvisible : Apart x ".visible".toList := by cases hsettled <;> assumption
  have hne : line.trim.isEmpty = false := isEmpty_of_pfx hx hvisible.ne_nil
  have hheader : isHeader line.trim = false := not_isHeader_of_apart hx hvisible
  have hhead : ∀ c ∈ line.trim.head?, isSpace c = false := Text.trim_head line
  have hsame : line.trim.head? = x.head? := (Text.head_of_pfx hx hvisible.ne_nil).symm
  unfold readLine
  dsimp only
  rw [hne, hheader]
  simp only [Bool.false_eq_true, if_false]
  cases hsettled with
  | outside => rfl
  | signature _ hbrace hparam =>
    have hnone := parseParamDecl_of_apart hx hparam hhead
    have hnone' := parseParamDecl_of_apart List.prefix_rfl hparam (Text.head_not_space hx hhead)
    dsimp only
    rw [ne_brace_of_apart hx hbrace]
    rw [if_neg Bool.false_ne_true, settledReading, readSignature, readSignature, hnone,
      hnone', hsame]
  | directive _ hreg hdirective =>
    dsimp only
    rw [ne_brace_of_directive hx hdirective]
    rw [if_neg Bool.false_ne_true, settledReading, readBody, readBody,
      bodyRole_of_directive hx hreg hdirective,
      bodyRole_of_directive List.prefix_rfl hreg hdirective]
  | comment _ hcomment =>
    have hcut : line.trim.cutComment = x.cutComment := by
      obtain ⟨rest, hrest⟩ := hx
      rw [← hrest]
      exact Text.cutComment_append hcomment rest
    have hbrace : (line.trim == ['\x7d']) = false := ne_brace_of_comment hx hcomment
    cases mode with
    | outside => rfl
    | signature =>
      dsimp only
      rw [hbrace]
      exact readSignature_cut hcut hsame
    | body =>
      dsimp only
      rw [hbrace]
      exact readBody_cut hcut

/-! ### Headers -/

/-- The text begins a header, up to the parenthesis behind the name. -/
structure HeaderPart (x : Text) : Prop where
  visible : ".visible".toList <+: x
  entry : Text.contains x ".entry".toList = true
  name : '(' ∈ headerRest x

theorem headerRest_append {x : Text} (hentry : Text.contains x ".entry".toList = true)
    (rest : Text) : headerRest (x ++ rest) = headerRest x ++ rest := by
  obtain ⟨i, hi⟩ := Option.isSome_iff_exists.mp hentry
  obtain ⟨⟨pre, post, rfl, rfl⟩, -⟩ := Text.find_eq_some_iff.mp hi
  rw [headerRest, headerRest, Text.find_append hi, hi]
  dsimp only
  rw [List.drop_append_of_le_length]
  simp

theorem trim_to_paren {a : Text} (ha : '(' ∉ a) (b : Text) :
    (Text.trim (a ++ '(' :: b)).takeWhile (· != '(') = a.dropWhile isSpace := by
  have hkeep : Text.trim (a ++ ['(']) = a.dropWhile isSpace ++ ['('] := by
    have hdrop : (a ++ ['(']).dropWhile isSpace = a.dropWhile isSpace ++ ['('] := by
      rw [List.dropWhile_append]
      split
      · next hnil =>
        rw [List.isEmpty_iff.mp hnil]
        rfl
      · rfl
    rw [Text.trim, hdrop]
    exact List.rdropWhile_concat_neg _ _ _ (by decide)
  obtain ⟨rest, hrest⟩ := Text.trim_pfx_append (a ++ ['(']) b
  rw [List.append_cons, ← hrest, hkeep, List.append_assoc]
  exact Text.takeWhile_ne_cons (fun hmem => ha ((List.dropWhile_suffix _).subset hmem)) rest

theorem headerName_append {x : Text} (hx : HeaderPart x) (rest : Text) :
    headerName (x ++ rest) = headerName x := by
  obtain ⟨a, b, hname, ha⟩ := List.eq_append_cons_of_mem hx.name
  rw [headerName, headerName, headerRest_append hx.entry, hname, List.append_assoc]
  rw [List.cons_append, trim_to_paren ha, trim_to_paren ha]

theorem HeaderPart.read {x line : Text} (hx : HeaderPart x) (hline : x <+: line.trim)
    (hopens : '\x7b' ∈ headerRest x ∨ '\x7b' ∉ line) (mode : LineMode) :
    readLine mode line = .header (headerName x) (Text.contains (headerRest x) ['\x7b']) := by
  obtain ⟨rest, hrest⟩ := hline
  have hvisible : ".visible".toList <+: line.trim :=
    hrest ▸ hx.visible.trans (List.prefix_append x rest)
  have hheader : isHeader line.trim = true := by
    obtain ⟨pre, post, hentry⟩ := Text.contains_iff.mp hx.entry
    rw [isHeader, Text.startsWith, List.isPrefixOf_iff_prefix.mpr hvisible, ← hrest, Bool.true_and,
      Text.contains_iff]
    exact ⟨pre, post ++ rest, by rw [hentry]; simp⟩
  have hne : line.trim.isEmpty = false := isEmpty_of_pfx hvisible (by decide)
  have hbrace : Text.contains (headerRest line.trim) ['\x7b']
      = Text.contains (headerRest x) ['\x7b'] := by
    rw [← hrest, headerRest_append hx.entry, Bool.eq_iff_iff, Text.contains_char,
      Text.contains_char, List.mem_append, or_iff_left_iff_imp]
    intro hmem
    apply hopens.resolve_right
    intro hno
    obtain ⟨left, right, hmargins, -⟩ := line.trim_margins
    apply hno
    rw [hmargins, ← hrest]
    simp [hmem]
  unfold readLine
  dsimp only
  rw [hne, hheader, hbrace, ← hrest, headerName_append hx]
  rfl

/-! ### Lines that the cleaning spares -/

/-- The cleaning does not change what the parser reads from the line, where it stands: it leaves the
line alone, or at least so much of it that nothing behind that is read. -/
inductive LineSpared (mode : LineMode) (line : Text) : Prop
  | untouched : Untouched line → LineSpared mode line
  | settled {code : Text} : KeptPart line code → Settled mode code.trim → LineSpared mode line
  | header {code : Text} : KeptPart line code → HeaderPart code.trim →
      ('\x7b' ∈ headerRest code.trim ∨ '\x7b' ∉ line) → LineSpared mode line

theorem LineSpared.read {mode : LineMode} {line : Text} (hline : LineSpared mode line) :
    readLine mode (cleanLine line) = readLine mode line := by
  have hbegins {code t : Text} (hcode : code <+: t) : code.trim <+: t.trim := by
    obtain ⟨rest, rfl⟩ := hcode
    exact Text.trim_pfx_append code rest
  cases hline with
  | untouched hsame => rw [cleanLine_untouched hsame]
  | settled hkept hsettled =>
    rw [hsettled.read (hbegins hkept.begins), hsettled.read (hbegins hkept.cleanLine)]
  | header hkept hheader hopens =>
    have hclean := hopens.imp_right (not_mem_cleanLine (by decide))
    rw [hheader.read (hbegins hkept.begins) hopens, hheader.read (hbegins hkept.cleanLine) hclean]

end ProtoGpu
