import ProtoGpu.Proof.SparedLines

/-!
# Cleaned texts

The cleaning of a PTX text drops its `.loc` lines, which the parser reads nothing from, and edits
the others by what they look like. The parser sees the same kernels when the cleaning spares every
line where the line stands. An edit that the parser does not see is one in a comment, in a directive
or outside the kernels; one that it sees is that of an address with an offset on a line that names
the parameter space.
-/

namespace ProtoGpu

open Json (isSpace)

/-- Printable ASCII, a tab or a line feed, but no double quote. -/
def isPlainChar (c : Char) : Bool :=
  c == '\n' || c == '\t' || (0x20 ≤ c.toNat && c.toNat ≤ 0x7E && c != '"')

/-- The bytes of an ASCII text. -/
def asciiBytes (text : Text) : List Byte := text.map fun c => BitVec.ofNat 8 c.toNat

theorem cleanByte_ascii {c : Char} (hc : isPlainChar c = true) :
    cleanByte (BitVec.ofNat 8 c.toNat) = c := by
  simp only [isPlainChar, Bool.or_eq_true, Bool.and_eq_true, beq_iff_eq, bne_iff_ne,
    decide_eq_true_eq] at hc
  rcases hc with (rfl | rfl) | ⟨⟨hlow, hhigh⟩, hquote⟩
  · rfl
  · rfl
  · have hbyte : (BitVec.ofNat 8 c.toNat).toNat = c.toNat := by
      rw [BitVec.toNat_ofNat]
      omega
    unfold cleanByte
    simp only [hbyte, Char.ofNat_toNat, hlow, hhigh, and_self, if_true, beq_false_of_ne hquote]
    simp

theorem deobfuscate_ascii {text : Text} (htext : ∀ c ∈ text, isPlainChar c = true) :
    deobfuscatePtxTextMvp (asciiBytes text) = cleanText text := by
  have hsame : (asciiBytes text).map cleanByte = text := by
    rw [asciiBytes, List.map_map]
    calc
      text.map (cleanByte ∘ fun c => BitVec.ofNat 8 c.toNat) = text.map id := by
        apply List.map_congr_left
        intro c hc
        exact cleanByte_ascii (htext c hc)
      _ = text := List.map_id text
  rw [deobfuscatePtxTextMvp, hsame]

/-! ### Lines of the cleaned text -/

theorem newline_not_mem_getlines (text : Text) : ∀ line ∈ text.getlines, '\n' ∉ line := by
  induction text using Text.lines_induct with
  | last a ha =>
    rw [Text.getlines_last ha]
    split
    · simp
    · simpa using ha
  | line a b ha ih =>
    rw [Text.getlines_line ha]
    exact List.forall_mem_cons.mpr ⟨ha, ih⟩

theorem getlines_cleanText (text : Text) :
    (cleanText text).getlines = (text.getlines.filter (!isLocLine ·)).map cleanLine := by
  have hlines : ∀ line ∈ (text.getlines.filter (!isLocLine ·)).map cleanLine, '\n' ∉ line := by
    intro line hline
    obtain ⟨t, ht, rfl⟩ := List.mem_map.mp hline
    exact not_mem_cleanLine (by decide)
      (newline_not_mem_getlines text t (List.mem_of_mem_filter ht))
  calc
    (cleanText text).getlines
        = Text.getlines (((text.getlines.filter (!isLocLine ·)).map cleanLine).flatMap
            fun t => t ++ ['\n']) := by rw [cleanText, List.flatMap_map]
    _ = (text.getlines.filter (!isLocLine ·)).map cleanLine := Text.getlines_flatMap hlines

/-! ### Dropped lines -/

theorem settled_loc (mode : LineMode) : Settled mode ".loc".toList := by
  cases mode with
  | outside => exact .outside (by decide)
  | signature => exact .signature (by decide) (by decide) (by decide)
  | body => exact .directive (by decide) (by decide) rfl

/-- The parser takes nothing from a dropped line, wherever it stands. -/
theorem readLine_loc (mode : LineMode) {line : Text} (hloc : isLocLine line = true) :
    readLine mode line = .nothing := by
  have hpre : ".loc".toList <+: line.dropWhile isSpace := by
    simp only [isLocLine, Text.startsWith, Bool.or_eq_true, List.isPrefixOf_iff_prefix] at hloc
    rcases hloc with (hloc | hloc) | hloc
    · exact hloc
    · exact (List.prefix_append ".loc".toList [' ']).trans hloc
    · exact (List.prefix_append ".loc".toList ['I']).trans hloc
  have htrim : ".loc".toList <+: line.trim := by
    obtain ⟨rest, hrest⟩ := hpre
    have hbegin := Text.trim_pfx_append ".loc".toList rest
    rw [hrest, Text.trim, Text.trim, List.dropWhile_idempotent] at hbegin
    exact hbegin
  rw [(settled_loc mode).read htrim]
  cases mode <;> rfl

/-! ### Where a line stands -/

/-- Where the line behind the line stands: a header opens an entry, a brace its body, and a closing
brace alone on a line ends it. -/
def LineMode.behind (mode : LineMode) (line : Text) : LineMode :=
  let t := line.trim
  if isHeader t then
    if Text.contains (headerRest t) ['\x7b'] then .body else .signature
  else
    match mode with
    | .outside => .outside
    | .signature =>
        if t == ['\x7d'] then .outside else if t.head? == some '\x7b' then .body else .signature
    | .body => if t == ['\x7d'] then .outside else .body

theorem readSignature_next (t : Text) :
    (readSignature t).next .signature
      = if t.head? == some '\x7b' then .body else .signature := by
  unfold readSignature
  cases t.head? == some '\x7b' with
  | true => cases parseParamDecl t <;> rfl
  | false => cases parseParamDecl t <;> rfl

theorem readBody_next (t : Text) : (readBody t).next .body = .body := by
  unfold readBody
  cases bodyRole (0, t) <;> rfl

theorem readLine_next (mode : LineMode) (line : Text) :
    (readLine mode line).next mode = mode.behind line := by
  unfold readLine LineMode.behind
  dsimp only
  split
  · next hnil =>
    rw [List.isEmpty_iff] at hnil
    rw [hnil]
    cases mode <;> rfl
  · split
    · rfl
    · cases mode with
      | outside => rfl
      | signature =>
        dsimp only
        split
        · rfl
        · exact readSignature_next _
      | body =>
        dsimp only
        split
        · rfl
        · exact readBody_next _

/-! ### The run over the cleaned lines -/

/-- Every line that is kept is spared, where it stands. -/
def AllSpared : LineMode → List Text → Prop
  | _, [] => True
  | mode, line :: lines =>
      (isLocLine line = false → LineSpared mode line) ∧ AllSpared (mode.behind line) lines

theorem cleaned_run (order : AliasOrder) {lines : List Text} {st : ReadState}
    (hlines : AllSpared st.mode lines) :
    ((lines.filter (!isLocLine ·)).map cleanLine).foldlM (readStep order) st
      = lines.foldlM (readStep order) st := by
  induction lines generalizing st with
  | nil => rfl
  | cons line lines ih =>
    obtain ⟨hline, hrest⟩ := hlines
    have hbehind {st' : ReadState} (hstep : readStep order st line = .ok st') :
        AllSpared st'.mode lines := by
      rw [(ReadState.step_mode hstep).trans (readLine_next st.mode line)]
      exact hrest
    cases hloc : isLocLine line with
    | true =>
      have hnothing : readStep order st line = .ok st := by
        rw [readStep, readLine_loc st.mode hloc]
        rfl
      rw [List.filter_cons_of_neg (by simp [hloc]), List.foldlM_cons, hnothing]
      exact ih (hbehind hnothing)
    | false =>
      have hread : readStep order st (cleanLine line) = readStep order st line := by
        rw [readStep, readStep, (hline hloc).read]
      rw [List.filter_cons_of_pos (by simp [hloc]), List.map_cons, List.foldlM_cons,
        List.foldlM_cons, hread]
      cases hstep : readStep order st line with
      | error what => rfl
      | ok st' => exact ih (hbehind hstep)

/-! ### Kernels of the cleaned text -/

/-- **Cleaned texts.** A text whose lines the cleaning spares becomes the same kernels, up to line
numbers, or fails to be read in the same way. -/
theorem clean_transparent {text : Text} (order : AliasOrder) (fileName : String)
    (htext : ∀ c ∈ text, isPlainChar c = true) (hlines : AllSpared .outside text.getlines) :
    (parsePtxTextTokens order (deobfuscatePtxTextMvp (asciiBytes text)) fileName).map
        ModuleTokens.erase
      = (parsePtxTextTokens order text fileName).map ModuleTokens.erase := by
  rw [parsePtxTextTokens_read, parsePtxTextTokens_read, deobfuscate_ascii htext,
    getlines_cleanText]
  congr 1
  exact cleaned_run order hlines

/-- A function that reads behind the start of its parameter, and a kernel that says so in a
comment. -/
def sparedPtx : Text :=
  ("ld.param.u64 %rd1,[p+8];\n.visible .entry k(\n)\n\x7b\n"
    ++ "ld.param.u64 %rd1,[p]; // not [p+8]\n\x7d\n").toList

theorem clean_transparent_comment :
    deobfuscatePtxTextMvp (asciiBytes sparedPtx) ≠ sparedPtx ∧
      (parsePtxTextTokens .inserted (deobfuscatePtxTextMvp (asciiBytes sparedPtx)) "").map
          ModuleTokens.erase
        = (parsePtxTextTokens .inserted sparedPtx "").map ModuleTokens.erase := by
  have htext : sparedPtx.all isPlainChar = true := by rfl
  have hlines : sparedPtx.getlines = ["ld.param.u64 %rd1,[p+8];".toList,
      ".visible .entry k(".toList, [')'], ['\x7b'],
      "ld.param.u64 %rd1,[p]; // not [p+8]".toList, ['\x7d']] := by decide +kernel
  have hfirst : KeptPart "ld.param.u64 %rd1,[p+8];".toList "ld".toList :=
    ⟨by decide, by decide, by decide, by decide, by decide, by decide⟩
  have hcomment : KeptPart "ld.param.u64 %rd1,[p]; // not [p+8]".toList
      "ld.param.u64 %rd1,[p]; //".toList :=
    ⟨by decide, by decide, by decide, by decide, by decide, fun _ => rfl⟩
  have halone {line : Text} (hno : Text.contains line ".param".toList = false)
      (hstart : Text.startsWith (line.dropWhile isSpace) "$visible".toList = false
        ∧ Text.startsWith (line.dropWhile isSpace) "visible".toList = false
        ∧ Text.contains line ".u64%".toList = false ∧ Text.contains line ".u32%".toList = false) :
      Untouched line :=
    ⟨hstart.1, hstart.2.1, hstart.2.2.1, hstart.2.2.2, fun h => by rw [hno] at h; cases h⟩
  refine ⟨by decide, clean_transparent .inserted "" (List.all_eq_true.mp htext) ?_⟩
  rw [hlines]
  refine ⟨fun _ => .settled hfirst (.outside (by decide)),
    fun _ => .untouched (halone (by decide) (by decide)),
    fun _ => .untouched (halone (by decide) (by decide)),
    fun _ => .untouched (halone (by decide) (by decide)),
    fun _ => .settled hcomment (.comment (by decide) (by decide)),
    fun _ => .untouched (halone (by decide) (by decide)), trivial⟩

/-- The same kernel, reading behind the start of the parameter. -/
def offsetPtx : Text :=
  ".visible .entry k(\n)\n\x7b\nld.param.u64 %rd1,[p+8];\n\x7d\n".toList

/-- The address `p+8` becomes the name `p_8`. -/
theorem offset_cleaned_away :
    (∀ c ∈ offsetPtx, isPlainChar c = true) ∧
      (parsePtxTextTokens .inserted (deobfuscatePtxTextMvp (asciiBytes offsetPtx)) "").map
          ModuleTokens.erase
        ≠ (parsePtxTextTokens .inserted offsetPtx "").map ModuleTokens.erase := by
  have htext : offsetPtx.all isPlainChar = true := by rfl
  have hread : parsePtxTextTokens .inserted offsetPtx "" = .ok
      { kernels := [{ name := "k".toList, insts :=
        [{ ptxOpcode := "ld".toList, mods := { typeMod := "u64", space := "param" },
           operandTokens := ["%rd1".toList, "[p+8]".toList],
           dbg := some { file := "", line := 4, column := 1 } }] }] } := by rfl
  have hclean : parsePtxTextTokens .inserted (deobfuscatePtxTextMvp (asciiBytes offsetPtx)) ""
      = .ok { kernels := [{ name := "k".toList, insts :=
        [{ ptxOpcode := "ld".toList, mods := { typeMod := "u64", space := "param" },
           operandTokens := ["%rd1".toList, "[p_8]".toList],
           dbg := some { file := "", line := 4, column := 1 } }] }] } := by rfl
  refine ⟨List.all_eq_true.mp htext, ?_⟩
  rw [hread, hclean]
  intro heq
  exact absurd (Except.ok.inj heq) (by decide)

end ProtoGpu
